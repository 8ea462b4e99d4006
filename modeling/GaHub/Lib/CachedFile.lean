import Mathlib.Data.List.Basic

namespace Lib.CachedFile

variable {Sig Doc E R : Type*}

-- A file by its signature and the document it holds, `none` where it holds none that is understood.
structure File (Sig Doc : Type*) where
  content : Option Doc
  sig : Sig
  deriving DecidableEq

-- The documents in memory, by their references, and the one that is kept for the next read: who reads it gets the
-- reference and changes the document in place.
structure State (Sig Doc : Type*) where
  file : Option (File Sig Doc) := none
  objects : List Doc := []
  cacheSig : Option Sig := none
  cacheData : Option Nat := none
  deriving DecidableEq

-- What goes wrong in one operation, and the signature of the file it writes.
structure Faults (Sig : Type*) where
  statFails : Bool := false
  loadFails : Bool := false
  -- the new file is not written or does not take the old one's place
  saveFails : Bool := false
  restatFails : Bool := false
  sig : Sig

inductive Fault where
  | io
  | unsupported
  deriving DecidableEq

inductive Effect (Doc E R : Type*) where
  | raises (e : E)
  | returns (r : R)
  | writes (doc : Doc) (r : R)

def Faults.fails (f : Faults Sig) : Bool := f.loadFails || f.saveFails

section Operations

variable [DecidableEq Sig] (initial : Doc) (f : Faults Sig) (s : State Sig Doc)

def State.allocate (doc : Doc) : State Sig Doc := { s with objects := s.objects ++ [doc] }

def State.forget : State Sig Doc := { s with cacheSig := none, cacheData := none }

def State.cached (sig : Option Sig) : Option Nat := if sig.isSome ∧ s.cacheSig = sig then s.cacheData else none

def read : State Sig Doc × Except Fault Nat :=
  let sig := if f.statFails then none else s.file.map File.sig
  match s.cached sig with
  | some r => (s, .ok r)
  | none =>
    match s.file with
    | none => (s.forget.allocate initial, .ok s.objects.length)
    | some file =>
      if f.loadFails then (s, .error .io)
      else
        match file.content with
        | none => (s, .error .unsupported)
        | some doc => ({ s.allocate doc with cacheSig := sig, cacheData := some s.objects.length }, .ok s.objects.length)

def write (r : Nat) (doc : Doc) : State Sig Doc × Except Fault Unit :=
  let s := { s with objects := s.objects.set r doc }
  if f.saveFails then (s.forget, .error .io)
  else
    ({ s with
      file := some ⟨some doc, f.sig⟩
      cacheSig := if f.restatFails then none else some f.sig
      cacheData := some r }, .ok ())

def perform (effect : Doc → Effect Doc E R) : State Sig Doc × Except (Fault ⊕ E) R :=
  match read initial f s with
  | (s, .error fault) => (s, .error (.inl fault))
  | (s, .ok r) =>
    match effect (s.objects.getD r initial) with
    | .raises e => (s, .error (.inr e))
    | .returns value => (s, .ok value)
    | .writes doc value =>
      match write f s r doc with
      | (s, .error fault) => (s, .error (.inl fault))
      | (s, .ok ()) => (s, .ok value)

end Operations

-- The same without a cache: the document in the file, and what one operation makes of it when it does not fail.
section Specification

variable (initial : Doc)

def document : Option (Option Doc) → Option Doc
  | none => some initial
  | some content => content

def apply (effect : Doc → Effect Doc E R) (failed : Bool) (content : Option (Option Doc)) :
    Option (Option Doc) × Except (Fault ⊕ E) R :=
  if failed then (content, .error (.inl .io))
  else
    match document initial content with
    | none => (content, .error (.inl .unsupported))
    | some doc =>
      match effect doc with
      | .raises e => (content, .error (.inr e))
      | .returns value => (content, .ok value)
      | .writes doc value => (some (some doc), .ok value)

end Specification

def State.content (s : State Sig Doc) : Option (Option Doc) := s.file.map File.content

structure Coherent (s : State Sig Doc) : Prop where
  kept : ∀ file r, s.file = some file → s.cacheSig = some file.sig → s.cacheData = some r →
    ∃ doc, s.objects[r]? = some doc ∧ file.content = some doc
  known : ∀ r, s.cacheData = some r → r < s.objects.length

section Coherence

variable {doc : Doc} {s : State Sig Doc} {r : Nat}

theorem Coherent.start (file : Option (File Sig Doc)) : Coherent ({ file } : State Sig Doc) :=
  ⟨by rintro _ _ _ ⟨⟩, by rintro _ ⟨⟩⟩

theorem Coherent.forget (s : State Sig Doc) : Coherent s.forget := ⟨by rintro _ _ _ ⟨⟩, by rintro _ ⟨⟩⟩

theorem Coherent.allocate (h : Coherent s) (doc : Doc) : Coherent (s.allocate doc) := by
  constructor
  · intro file r hfile hsig hdata
    obtain ⟨kept, hkept, hcontent⟩ := h.kept file r hfile hsig hdata
    exact ⟨kept, (List.getElem?_append_left (h.known r hdata)).trans hkept, hcontent⟩
  · intro r hdata
    have hlt := h.known r hdata
    simp only [State.allocate, List.length_append]
    omega

theorem allocate_get (s : State Sig Doc) (doc : Doc) : (s.allocate doc).objects[s.objects.length]? = some doc := by
  simp [State.allocate]

-- A write either puts the document into the file or leaves the file as it was and keeps nothing of the change.
theorem write_spec (doc : Doc) (f : Faults Sig) (hr : r < s.objects.length) :
    Coherent (write f s r doc).1 ∧
      ((write f s r doc).2 = .ok () ∧ (write f s r doc).1.content = some (some doc) ∨
        f.fails = true ∧ (write f s r doc).2 = .error .io ∧ (write f s r doc).1.content = s.content) := by
  unfold write
  dsimp only
  split
  · rename_i hfails
    exact ⟨Coherent.forget _, .inr ⟨by simp [Faults.fails, hfails], rfl, rfl⟩⟩
  · refine ⟨⟨?_, ?_⟩, .inl ⟨rfl, rfl⟩⟩
    · intro file r' hfile _ hdata
      cases hfile
      cases hdata
      exact ⟨doc, List.getElem?_set_self hr, rfl⟩
    · rintro _ ⟨⟩
      simpa using hr

variable {initial : Doc} {f : Faults Sig}

structure ReadSpec (initial : Doc) (f : Faults Sig) (s t : State Sig Doc) (answer : Except Fault Nat) : Prop where
  file : t.file = s.file
  coherent : Coherent t
  handed : ∀ r, answer = .ok r → ∃ doc, t.objects[r]? = some doc ∧ document initial s.content = some doc
  unsupported : answer = .error .unsupported → document initial s.content = none
  failed : answer = .error .io → f.fails = true

variable [DecidableEq Sig]

theorem cached_some {sig : Option Sig} (h : s.cached sig = some r) :
    ∃ k, sig = some k ∧ s.cacheSig = some k ∧ s.cacheData = some r := by
  unfold State.cached at h
  split at h
  · rename_i hhit
    obtain ⟨k, rfl⟩ := Option.isSome_iff_exists.mp hhit.1
    exact ⟨k, rfl, hhit.2, h⟩
  · cases h

theorem read_spec (h : Coherent s) : ReadSpec initial f s (read initial f s).1 (read initial f s).2 := by
  unfold read
  dsimp only
  split
  · rename_i r hcached
    obtain ⟨k, hsig, hkept, hdata⟩ := cached_some hcached
    refine ⟨rfl, h, fun r' hr => ?_, by rintro ⟨⟩, by rintro ⟨⟩⟩
    cases hr
    split at hsig
    · cases hsig
    · obtain ⟨file, hfile, rfl⟩ := Option.map_eq_some_iff.mp hsig
      obtain ⟨doc, hdoc, hcontent⟩ := h.kept file r hfile hkept hdata
      exact ⟨doc, hdoc, by rw [State.content, hfile, Option.map_some, document, hcontent]⟩
  · split
    · rename_i hfile
      refine ⟨rfl, (Coherent.forget s).allocate initial, fun r hr => ?_, by rintro ⟨⟩, by rintro ⟨⟩⟩
      cases hr
      exact ⟨initial, allocate_get s.forget initial, by rw [State.content, hfile]; rfl⟩
    · rename_i file hfile
      split
      · rename_i hfails
        exact ⟨rfl, h, by rintro _ ⟨⟩, by rintro ⟨⟩, fun _ => by simp [Faults.fails, hfails]⟩
      · split
        · rename_i hcontent
          refine ⟨rfl, h, by rintro _ ⟨⟩, fun _ => ?_, by rintro ⟨⟩⟩
          rw [State.content, hfile, Option.map_some, document, hcontent]
        · rename_i doc hcontent
          refine ⟨rfl, ⟨?_, ?_⟩, fun r hr => ?_, by rintro ⟨⟩, by rintro ⟨⟩⟩
          · intro file' r hfile' _ hdata
            cases hfile.symm.trans hfile'
            cases hdata
            exact ⟨doc, allocate_get s doc, hcontent⟩
          · rintro _ ⟨⟩
            simp [State.allocate]
          · cases hr
            exact ⟨doc, allocate_get s doc, by rw [State.content, hfile, Option.map_some, document, hcontent]⟩

end Coherence

section Refinement

variable {initial : Doc} {f : Faults Sig} {s : State Sig Doc} {effect : Doc → Effect Doc E R} [DecidableEq Sig]

theorem perform_spec (h : Coherent s) : Coherent (perform initial f s effect).1 ∧
    ∃ failed, (failed = true → f.fails = true) ∧
      ((perform initial f s effect).1.content, (perform initial f s effect).2) = apply initial effect failed s.content := by
  have hread : ReadSpec initial f s _ _ := read_spec h
  unfold perform
  cases hanswer : read initial f s with
  | mk t answer =>
      rw [hanswer] at hread
      have hsame : t.content = s.content := congrArg (Option.map File.content) hread.file
      cases answer with
      | error fault =>
          refine ⟨hread.coherent, ?_⟩
          cases fault with
          | io => exact ⟨true, fun _ => hread.failed rfl, by rw [apply, if_pos rfl]; exact congrArg (·, _) hsame⟩
          | unsupported =>
              refine ⟨false, by rintro ⟨⟩, ?_⟩
              simp only [apply, Bool.false_eq_true, if_false, hread.unsupported rfl, hsame]
      | ok r =>
          obtain ⟨doc, hdoc, hseen⟩ := hread.handed r rfl
          simp only [List.getD_eq_getElem?_getD, hdoc, Option.getD_some]
          have happly : ∀ failed, failed = false → apply initial effect failed s.content =
              match effect doc with
              | .raises e => (s.content, .error (.inr e))
              | .returns value => (s.content, .ok value)
              | .writes doc' value => (some (some doc'), .ok value) := by
            rintro _ rfl
            simp only [apply, Bool.false_eq_true, if_false, hseen]
          cases heffect : effect doc with
          | raises e | returns value =>
              exact ⟨hread.coherent, false, by rintro ⟨⟩, by rw [happly _ rfl, heffect]; exact congrArg (·, _) hsame⟩
          | writes doc' value =>
              obtain ⟨hr, -⟩ := List.getElem?_eq_some_iff.mp hdoc
              obtain ⟨hcoherent, hwrote⟩ := write_spec doc' f hr
              cases hwrite : write f t r doc' with
              | mk u written =>
                  rw [hwrite] at hcoherent hwrote
                  rcases hwrote with ⟨hwritten, hcontent⟩ | ⟨hfails, hwritten, hcontent⟩
                  all_goals cases hwritten
                  all_goals simp only [hwrite]
                  · refine ⟨hcoherent, false, by rintro ⟨⟩, ?_⟩
                    rw [happly _ rfl, heffect]
                    exact congrArg (·, _) hcontent
                  · refine ⟨hcoherent, true, fun _ => hfails, ?_⟩
                    rw [apply, if_pos rfl]
                    exact congrArg (·, _) (hcontent.trans hsame)

end Refinement

end Lib.CachedFile
