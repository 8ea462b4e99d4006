import GaHub.Lib.Text
import Mathlib.Data.List.Forall2
import Mathlib.Order.Lattice

namespace GaHub.Streams.Projection

open Lib

abbrev Text := List Char

section Update

-- `part.strip()` is true of a text that has something to see.
def validTurnSegments (value : Option (List (Option Text))) (content : Option Text) (role : String := "assistant") :
    Option (List Text) :=
  match value.bind (·.mapM id) with
  | none => none
  | some parts =>
    if role ≠ "assistant" ∨ parts = [] then none
    else if (parts.all fun part => part.any fun c => !isSpace c) && content = some parts.flatten then some parts
    else none

-- What a native item says of its turns: `none` stands for a turn that is no `int`, for outputs that are no list and
-- for an output that is no text.
structure Item where
  turn : Option Int
  outputs : Option (List (Option Text))
  deriving DecidableEq

structure NativeTurnProjection where
  turns : List Text := []
  deriving DecidableEq

-- `outputs[-1] += trailer`
def trailed (outputs : List Text) (trailer : Text) : List Text := outputs.modify (outputs.length - 1) (· ++ trailer)

def candidate (p : NativeTurnProjection) (turn : Int) (outputs : List Text) (content : Text) (final : Bool) :
    Option (List Text) :=
  if final then
    if (outputs.length : Int) ≠ turn then none
    else if outputs.flatten ≠ [] ∧ outputs.flatten <+: content then
      some (trailed outputs (content.drop outputs.flatten.length))
    else some outputs
  else if (outputs.length : Int) ≠ min turn 2 ∨ turn > p.turns.length + 1 then none
  else some (p.turns.take (turn - outputs.length).toNat ++ outputs)

def update (p : NativeTurnProjection) (item : Item) (content : Text) (final : Bool) :
    NativeTurnProjection × Option (List Text) :=
  match item.turn, item.outputs.bind (·.mapM id) with
  | some turn, some outputs =>
    if turn < 1 ∨ outputs = [] then (p, none)
    else
      match candidate p turn outputs content final with
      | none => (p, none)
      | some candidate =>
        match validTurnSegments (some (candidate.map some)) (some content) with
        | none => (p, none)
        | some valid => (⟨valid⟩, some valid)
  | _, _ => (p, none)

end Update

section Producer

-- What an append-only producer does: a turn's text grows, a turn begins, and the items of both kinds are put out.
inductive Act where
  | grow (i : Nat) (more : Text)
  | start (text : Text)
  | next
  | done (trailer : Text)
  deriving DecidableEq

-- The producer's turns when an item was put out, with the trailer of the one that ends the stream.
structure Frame where
  turns : List Text
  trailer : Option Text
  deriving DecidableEq

def Frame.content (f : Frame) : Text := f.turns.flatten ++ f.trailer.getD []

def Frame.item (f : Frame) : Item where
  turn := some f.turns.length
  outputs := some ((if f.trailer.isSome then f.turns else f.turns.drop (f.turns.length - 2)).map some)

def Frame.turnList (f : Frame) : List Text :=
  match f.trailer with
  | none => f.turns
  | some trailer => trailed f.turns trailer

def produce (turns : List Text) : List Act → List Frame
  | [] => []
  | .grow i more :: acts => produce (turns.modify i (· ++ more)) acts
  | .start text :: acts => produce (turns ++ [text]) acts
  | .next :: acts => ⟨turns, none⟩ :: produce turns acts
  | .done trailer :: acts => ⟨turns, some trailer⟩ :: produce turns acts

def results (p : NativeTurnProjection) : List Frame → List (Option (List Text))
  | [] => []
  | f :: fs => (update p f.item f.content f.trailer.isSome).2 :: results (update p f.item f.content f.trailer.isSome).1 fs

end Producer

section Grows

variable {α : Type*} {l l' l'' : List (List α)}

-- Every text goes on where it was, and there may be more of them.
def Grows (l l' : List (List α)) : Prop := ∀ (i : Nat) (a : List α), l[i]? = some a → ∃ b : List α, l'[i]? = some b ∧ a <+: b

theorem Grows.refl (l : List (List α)) : Grows l l := fun _ a h => ⟨a, h, List.prefix_refl a⟩

theorem Grows.trans (h : Grows l l') (h' : Grows l' l'') : Grows l l'' := by
  intro i a ha
  obtain ⟨b, hb, hab⟩ := h i a ha
  obtain ⟨c, hc, hbc⟩ := h' i b hb
  exact ⟨c, hc, hab.trans hbc⟩

theorem Grows.modify (l : List (List α)) (i : Nat) (more : List α) : Grows l (l.modify i (· ++ more)) := by
  intro j a ha
  rw [List.getElem?_modify, ha]
  refine ⟨if i = j then a ++ more else a, rfl, ?_⟩
  split
  · exact List.prefix_append a more
  · exact List.prefix_refl a

theorem Grows.append (l more : List (List α)) : Grows l (l ++ more) := by
  intro i a ha
  obtain ⟨hlt, -⟩ := List.getElem?_eq_some_iff.mp ha
  exact ⟨a, by rw [List.getElem?_append_left hlt, ha], List.prefix_refl a⟩

theorem Grows.take (h : Grows l l') (n : Nat) : Grows (l.take n) (l'.take n) := by
  intro i a ha
  rw [List.getElem?_take] at ha
  split at ha
  · rename_i hlt
    obtain ⟨b, hb, hab⟩ := h i a ha
    exact ⟨b, by rw [List.getElem?_take, if_pos hlt, hb], hab⟩
  · cases ha

theorem Grows.tail {a b : List α} (h : Grows (a :: l) (b :: l')) : a <+: b ∧ Grows l l' := by
  refine ⟨?_, fun i c hc => h (i + 1) c hc⟩
  obtain ⟨c, hc, hac⟩ := h 0 a rfl
  rwa [Option.some.inj hc]

theorem Grows.flatten_le (h : Grows l l') : l.flatten.length ≤ l'.flatten.length := by
  induction l generalizing l' with
  | nil => exact Nat.zero_le _
  | cons a l ih =>
      cases l' with
      | nil =>
          obtain ⟨b, hb, -⟩ := h 0 a rfl
          cases hb
      | cons b l' =>
          obtain ⟨hab, hrest⟩ := h.tail
          have hle := ih hrest
          have hfirst := hab.length_le
          rw [List.flatten_cons, List.flatten_cons, List.length_append, List.length_append]
          omega

theorem Grows.eq (h : Grows l l') (hlen : l.length = l'.length) (hflat : l.flatten.length = l'.flatten.length) : l = l' := by
  induction l generalizing l' with
  | nil => exact (List.eq_nil_of_length_eq_zero hlen.symm).symm
  | cons a l ih =>
      cases l' with
      | nil => cases hlen
      | cons b l' =>
          obtain ⟨hab, hrest⟩ := h.tail
          have hle := hrest.flatten_le
          have hfirst := hab.length_le
          rw [List.flatten_cons, List.flatten_cons, List.length_append, List.length_append] at hflat
          rw [hab.eq_of_length (by omega), ih hrest (Nat.succ.inj hlen) (by omega)]

end Grows

section Exact

variable {p : NativeTurnProjection} {f : Frame} {content : Text} {parts valid : List Text}

theorem mapM_some (parts : List Text) : (parts.map some).mapM id = some parts := by
  induction parts with
  | nil => rfl
  | cons part parts ih =>
      rw [List.map_cons, List.mapM_cons, ih]
      rfl

theorem validTurnSegments_some (h : validTurnSegments (some (parts.map some)) (some content) = some valid) :
    valid = parts ∧ parts.flatten = content := by
  simp only [validTurnSegments, Option.bind_some, mapM_some] at h
  split at h
  · cases h
  · split at h
    · rename_i hparts
      have hcontent := (Bool.and_eq_true_iff.mp hparts).2
      exact ⟨(Option.some.inj h).symm, (Option.some.inj (of_decide_eq_true hcontent)).symm⟩
    · cases h

theorem update_cases (p : NativeTurnProjection) (f : Frame) :
    let outputs := if f.trailer.isSome then f.turns else f.turns.drop (f.turns.length - 2)
    update p f.item f.content f.trailer.isSome = (p, none) ∨
      ∃ parts, candidate p f.turns.length outputs f.content f.trailer.isSome = some parts ∧
        parts.flatten = f.content ∧ update p f.item f.content f.trailer.isSome = (⟨parts⟩, some parts) := by
  intro outputs
  have hitem : update p f.item f.content f.trailer.isSome =
      if (f.turns.length : Int) < 1 ∨ outputs = [] then (p, none)
      else
        match candidate p f.turns.length outputs f.content f.trailer.isSome with
        | none => (p, none)
        | some candidate =>
          match validTurnSegments (some (candidate.map some)) (some f.content) with
          | none => (p, none)
          | some valid => (⟨valid⟩, some valid) := by
    simp only [update, Frame.item, Option.bind_some, mapM_some]
    rfl
  rw [hitem]
  split
  · exact .inl rfl
  · cases hcandidate : candidate p f.turns.length outputs f.content f.trailer.isSome with
    | none => exact .inl rfl
    | some parts =>
        simp only
        cases hvalid : validTurnSegments (some (parts.map some)) (some f.content) with
        | none => exact .inl rfl
        | some valid =>
            obtain ⟨rfl, hcontent⟩ := validTurnSegments_some hvalid
            exact .inr ⟨valid, rfl, hcontent, rfl⟩

theorem trailed_nil (outputs : List Text) : trailed outputs [] = outputs := by
  refine List.ext_getElem? fun i => ?_
  rw [trailed, List.getElem?_modify]
  cases outputs[i]? with
  | none => rfl
  | some a =>
      refine congrArg some ?_
      split
      · exact List.append_nil a
      · rfl

theorem dropLast_trailed (outputs : List Text) (trailer : Text) : (trailed outputs trailer).dropLast = outputs.dropLast := by
  refine List.ext_getElem? fun i => ?_
  rw [List.dropLast_eq_take, List.dropLast_eq_take, trailed, List.length_modify, List.getElem?_take, List.getElem?_take]
  split
  · rename_i hlt
    have hne : outputs.length - 1 ≠ i := by omega
    rw [List.getElem?_modify]
    cases outputs[i]? with
    | none => rfl
    | some a => exact congrArg some (if_neg hne)
  · rfl

theorem candidate_done {trailer : Text} (htrailer : f.trailer = some trailer)
    (h : candidate p f.turns.length f.turns f.content true = some parts) (hcontent : parts.flatten = f.content) :
    parts = trailed f.turns trailer := by
  have hwhole : f.content = f.turns.flatten ++ trailer := by rw [Frame.content, htrailer, Option.getD_some]
  simp only [candidate, if_true, ne_eq, not_true_eq_false, if_false] at h
  rw [hwhole] at h hcontent
  split at h
  · rw [List.drop_left] at h
    exact (Option.some.inj h).symm
  · rw [← Option.some.inj h] at hcontent ⊢
    have hnil : trailer = [] := List.append_right_eq_self.mp hcontent.symm
    rw [hnil, trailed_nil]

-- Any other item carries the last two; what is remembered of the turns before them can only be less than they are,
-- and then it does not make up the content.
theorem candidate_next (htrailer : f.trailer = none) (hbefore : Grows p.turns.dropLast f.turns)
    (h : candidate p f.turns.length (f.turns.drop (f.turns.length - 2)) f.content false = some parts)
    (hcontent : parts.flatten = f.content) : parts = f.turns := by
  have hwhole : f.content = f.turns.flatten := by rw [Frame.content, htrailer, Option.getD_none, List.append_nil]
  simp only [candidate, Bool.false_eq_true, if_false] at h
  split at h
  · cases h
  · rename_i hturn
    rw [not_or, not_lt] at hturn
    rw [List.length_drop] at h
    have hstart : ((f.turns.length : Int) - (f.turns.length - (f.turns.length - 2) : Nat)).toNat = f.turns.length - 2 := by
      omega
    have hkept : p.turns.take (f.turns.length - 2) = p.turns.dropLast.take (f.turns.length - 2) := by
      rw [List.dropLast_eq_take, List.take_take, Nat.min_eq_left (by omega)]
    have hgrows := hbefore.take (f.turns.length - 2)
    rw [hstart, hkept] at h
    rw [← Option.some.inj h, hwhole] at hcontent
    have hsplit : f.turns = f.turns.take (f.turns.length - 2) ++ f.turns.drop (f.turns.length - 2) :=
      (List.take_append_drop _ _).symm
    have hflat : (p.turns.dropLast.take (f.turns.length - 2)).flatten = (f.turns.take (f.turns.length - 2)).flatten := by
      have hboth := hcontent.trans (congrArg List.flatten hsplit)
      rw [List.flatten_append, List.flatten_append] at hboth
      exact List.append_cancel_right hboth
    have hlen : (p.turns.dropLast.take (f.turns.length - 2)).length = (f.turns.take (f.turns.length - 2)).length := by
      rw [List.length_take, List.length_take, List.length_dropLast]
      omega
    rw [← Option.some.inj h, hgrows.eq hlen (congrArg List.length hflat)]
    exact hsplit.symm

theorem update_exact (hbefore : Grows p.turns.dropLast f.turns) :
    update p f.item f.content f.trailer.isSome = (p, none) ∨
      update p f.item f.content f.trailer.isSome = (⟨f.turnList⟩, some f.turnList) := by
  rcases update_cases p f with hnone | ⟨parts, hcandidate, hcontent, hresult⟩
  · exact .inl hnone
  · have hparts : parts = f.turnList := by
      cases htrailer : f.trailer with
      | none =>
          rw [htrailer] at hcandidate
          rw [candidate_next htrailer hbefore hcandidate hcontent, Frame.turnList, htrailer]
      | some trailer =>
          rw [htrailer] at hcandidate
          rw [candidate_done htrailer hcandidate hcontent, Frame.turnList, htrailer]
    rw [hparts] at hresult
    exact .inr hresult

theorem grows_turnList (f : Frame) : Grows f.turnList.dropLast f.turns := by
  have hlast : Grows f.turns.dropLast f.turns := by
    have htake := Grows.append (f.turns.take (f.turns.length - 1)) (f.turns.drop (f.turns.length - 1))
    rwa [List.take_append_drop, ← List.dropLast_eq_take] at htake
  cases htrailer : f.trailer with
  | none => rwa [Frame.turnList, htrailer]
  | some trailer => rwa [Frame.turnList, htrailer, dropLast_trailed]

theorem produce_grows (turns : List Text) (acts : List Act) : (∀ f ∈ produce turns acts, Grows turns f.turns) ∧
    (produce turns acts).Pairwise fun f g => Grows f.turns g.turns := by
  induction acts generalizing turns with
  | nil => exact ⟨by rintro _ ⟨⟩, .nil⟩
  | cons act acts ih =>
      cases act with
      | grow i more =>
          obtain ⟨hall, hpair⟩ := ih (turns.modify i (· ++ more))
          exact ⟨fun f hf => (Grows.modify turns i more).trans (hall f hf), hpair⟩
      | start text =>
          obtain ⟨hall, hpair⟩ := ih (turns ++ [text])
          exact ⟨fun f hf => (Grows.append turns [text]).trans (hall f hf), hpair⟩
      | next =>
          obtain ⟨hall, hpair⟩ := ih turns
          refine ⟨fun f hf => ?_, List.pairwise_cons.mpr ⟨fun f hf => hall f hf, hpair⟩⟩
          rcases List.mem_cons.mp hf with rfl | hf
          · exact .refl turns
          · exact hall f hf
      | done trailer =>
          obtain ⟨hall, hpair⟩ := ih turns
          refine ⟨fun f hf => ?_, List.pairwise_cons.mpr ⟨fun f hf => hall f hf, hpair⟩⟩
          rcases List.mem_cons.mp hf with rfl | hf
          · exact .refl turns
          · exact hall f hf

theorem results_exact (p : NativeTurnProjection) (frames : List Frame)
    (hbefore : ∀ f ∈ frames, Grows p.turns.dropLast f.turns)
    (hpair : frames.Pairwise fun f g => Grows f.turns g.turns) :
    List.Forall₂ (fun f r => r = none ∨ r = some f.turnList) frames (results p frames) := by
  induction frames generalizing p with
  | nil => exact .nil
  | cons f frames ih =>
      obtain ⟨hlater, hpair⟩ := List.pairwise_cons.mp hpair
      rw [results]
      rcases update_exact (hbefore f List.mem_cons_self) with hnone | hsome
      · rw [hnone]
        exact .cons (.inl rfl) (ih p (fun g hg => hbefore g (List.mem_cons_of_mem f hg)) hpair)
      · rw [hsome]
        exact .cons (.inr rfl) (ih _ (fun g hg => (grows_turnList f).trans (hlater g hg)) hpair)

-- Whatever items of an append-only producer are lost, each update returns the producer's turns for the content it is
-- given, or nothing.
theorem boundaries_exact_or_absent (acts : List Act) {received : List Frame} (h : received.Sublist (produce [] acts)) :
    List.Forall₂ (fun f r => r = none ∨ r = some f.turnList) received (results {} received) :=
  results_exact {} received (fun f _ i a ha => by cases ha) ((produce_grows [] acts).2.sublist h)

-- A stream whose second item is lost: its third is of no use, the last one is exact again.
theorem boundaries_exact_lost :
    let frames := produce [] [.start ['a'], .next, .start ['b'], .next, .start ['c'], .next, .done ['!']]
    results {} (frames.eraseIdx 1) = [some [['a']], none, some [['a'], ['b'], ['c', '!']]] ∧
      List.Forall₂ (fun f r => r = none ∨ r = some f.turnList) (frames.eraseIdx 1) (results {} (frames.eraseIdx 1)) :=
  ⟨by decide, boundaries_exact_or_absent _ (List.eraseIdx_sublist _ 1)⟩

end Exact

end GaHub.Streams.Projection
