import GaHub.Page
import GaHub.Lib.Log
import GaHub.Lib.Machine
import Mathlib.Logic.Function.Basic

namespace GaHub.Page

open Lib

-- The engine's history: its boots in order of time, under ids of their own, and what
-- the snapshot with a revision shows inside a boot.
structure Engine (Subagent : Type) where
  boot : Nat → String
  boot_injective : Function.Injective boot
  boot_ne_empty : ∀ k, boot k ≠ ""
  items : Nat → Nat → List Subagent

-- A snapshot comes with an event, or as the answer to a request that noted the
-- store's revision when it was sent.
inductive Feed where
  | replace
  | hydrate (expectedRevision : Nat)
  deriving DecidableEq

structure Delivery where
  feed : Feed
  boot : Nat
  revision : Nat
  deriving DecidableEq

inductive Action where
  | deliver (d : Delivery)
  | clear
  deriving DecidableEq

-- The store, and the boots and revisions of the snapshots applied since it was cleared, oldest first.
structure Watched (Subagent : Type) where
  store : ConductorState Subagent := {}
  applied : List (Nat × Nat) := []
  deriving DecidableEq

variable {Subagent : Type} (e : Engine Subagent)

def Engine.version (k r : Nat) : SnapshotVersion := { bootId := some (e.boot k), snapshotRevision := some (r : Int) }

def deliver (s : ConductorState Subagent) (d : Delivery) : ConductorState Subagent :=
  match d.feed with
  | .replace => s.replaceSubagents (e.items d.boot d.revision) (e.version d.boot d.revision)
  | .hydrate expected => s.hydrateSubagents (e.items d.boot d.revision) expected (e.version d.boot d.revision)

-- Every snapshot that is applied raises the store's own revision; any other leaves the store as it is.
def accepts (s : ConductorState Subagent) (d : Delivery) : Bool :=
  (deliver e s d).subagentsRevision != s.subagentsRevision

def machine : Machine (Watched Subagent) Action where
  start := {}
  next w
    | .deliver d => some
        { store := deliver e w.store d
          applied := if accepts e w.store d then w.applied ++ [(d.boot, d.revision)] else w.applied }
    | .clear => some { store := w.store.clear }

-- The second snapshot is of a later boot, or of the same boot and later in it.
def Newer (p q : Nat × Nat) : Prop := p.1 < q.1 ∨ p.1 = q.1 ∧ p.2 < q.2

instance (p q : Nat × Nat) : Decidable (Newer p q) := inferInstanceAs (Decidable (_ ∨ _))

-- A snapshot that comes after one of a later boot is of a boot the store knows already.
def timely (w : Watched Subagent) : Action → Bool
  | .deliver d => w.applied.all fun p => decide (d.boot < p.1) → d.boot ∈ w.applied.map Prod.fst
  | .clear => true

-- The answer's boot is the store's, or nothing was applied while the request was out.
def Feed.fits (s : ConductorState Subagent) (k : Nat) : Feed → Prop
  | .replace => True
  | .hydrate expected => s.subagentsRevision = expected ∨ s.engineBootId = some (e.boot k)

def Fresh (s : ConductorState Subagent) (k r : Nat) : Prop :=
  e.boot k ∉ s.retiredBootIds ∧ (s.engineBootId = some (e.boot k) → s.engineSnapshotRevision < (r : Int))

def applySnapshotOf (s : ConductorState Subagent) (k r : Nat) : ConductorState Subagent :=
  { s with
    subagents := e.items k r
    subagentsRevision := s.subagentsRevision + 1
    engineBootId := some (e.boot k)
    engineSnapshotRevision := r
    retiredBootIds :=
      if truthy s.engineBootId ∧ some (e.boot k) ≠ s.engineBootId then s.retiredBootIds ++ s.engineBootId.toList
      else s.retiredBootIds }

variable {e} {s : ConductorState Subagent}

theorem applySnapshot_fresh {k r : Nat} (h : Fresh e s k r) :
    s.applySnapshot (e.items k r) (e.version k r) = applySnapshotOf e s k r := by
  have hne : (some (e.boot k)).filter (· != "") = some (e.boot k) := by simp [Option.filter, e.boot_ne_empty k]
  have hpos : ¬((r : Int) < 0 ∨ e.boot k ∈ s.retiredBootIds) := by
    rintro (hneg | hmem)
    · omega
    · exact h.1 hmem
  have hlate : ¬(some (e.boot k) = s.engineBootId ∧ (r : Int) ≤ s.engineSnapshotRevision) := by
    rintro ⟨hboot, hle⟩
    have hlt := h.2 hboot.symm
    omega
  simp only [ConductorState.applySnapshot, Engine.version, hne, if_neg hpos, if_neg hlate, applySnapshotOf]

theorem applySnapshot_stale {k r : Nat} (h : ¬Fresh e s k r) :
    s.applySnapshot (e.items k r) (e.version k r) = s := by
  have hne : (some (e.boot k)).filter (· != "") = some (e.boot k) := by simp [Option.filter, e.boot_ne_empty k]
  simp only [ConductorState.applySnapshot, Engine.version, hne]
  by_cases hretired : e.boot k ∈ s.retiredBootIds
  · rw [if_pos (Or.inr hretired)]
  · have hold : s.engineBootId = some (e.boot k) ∧ (r : Int) ≤ s.engineSnapshotRevision := by
      by_contra hnot
      refine h ⟨hretired, fun hboot => ?_⟩
      by_contra hle
      exact hnot ⟨hboot, by omega⟩
    split
    · rfl
    · rw [if_pos ⟨hold.1.symm, hold.2⟩]

-- A delivery either leaves the store alone or puts its snapshot in; the feed only adds a condition of its own.
theorem deliver_cases (s : ConductorState Subagent) (d : Delivery) :
    (d.feed.fits e s d.boot ∧ Fresh e s d.boot d.revision ∧ accepts e s d = true ∧
      deliver e s d = applySnapshotOf e s d.boot d.revision) ∨
    (¬(d.feed.fits e s d.boot ∧ Fresh e s d.boot d.revision) ∧ accepts e s d = false ∧ deliver e s d = s) := by
  by_cases hfits : d.feed.fits e s d.boot
  · have hto : deliver e s d = s.applySnapshot (e.items d.boot d.revision) (e.version d.boot d.revision) := by
      unfold deliver
      cases hd : d.feed with
      | replace => rfl
      | hydrate expected =>
          rw [hd] at hfits
          have hguard : ¬(s.subagentsRevision ≠ expected ∧ (e.version d.boot d.revision).bootId ≠ s.engineBootId) := by
            rintro ⟨hrev, hboot⟩
            exact hfits.elim hrev fun h => hboot h.symm
          have htruthy : truthy (e.version d.boot d.revision).bootId = true := by
            simp [truthy, Engine.version, e.boot_ne_empty]
          simp only [ConductorState.hydrateSubagents, if_neg hguard, htruthy, not_true, false_and, if_false]
    by_cases hfresh : Fresh e s d.boot d.revision
    · have hdone : deliver e s d = applySnapshotOf e s d.boot d.revision := by rw [hto, applySnapshot_fresh hfresh]
      refine Or.inl ⟨hfits, hfresh, ?_, hdone⟩
      simp [accepts, hdone, applySnapshotOf]
    · have hkept : deliver e s d = s := by rw [hto, applySnapshot_stale hfresh]
      exact Or.inr ⟨fun h => hfresh h.2, by simp [accepts, hkept], hkept⟩
  · have hkept : deliver e s d = s := by
      unfold deliver
      cases hd : d.feed with
      | replace =>
          rw [hd] at hfits
          exact absurd trivial hfits
      | hydrate expected =>
          rw [hd] at hfits
          have hguard : s.subagentsRevision ≠ expected ∧ (e.version d.boot d.revision).bootId ≠ s.engineBootId :=
            ⟨fun h => hfits (Or.inl h), fun h => hfits (Or.inr h.symm)⟩
          simp only [ConductorState.hydrateSubagents, if_pos hguard]
    exact Or.inr ⟨fun h => hfits h.1, by simp [accepts, hkept], hkept⟩

theorem accepts_iff {d : Delivery} :
    accepts e s d = true ↔ d.feed.fits e s d.boot ∧ Fresh e s d.boot d.revision := by
  rcases deliver_cases (e := e) s d with ⟨hfits, hfresh, hyes, -⟩ | ⟨hnot, hno, -⟩
  · exact ⟨fun _ => ⟨hfits, hfresh⟩, fun _ => hyes⟩
  · exact ⟨fun h => absurd h (by simp [hno]), fun h => absurd h hnot⟩

-- Inside a boot the applied revisions rise, and a boot that another one followed does not come back.
structure Forward (applied : List (Nat × Nat)) : Prop where
  rising : applied.Pairwise fun p q => p.1 = q.1 → p.2 < q.2
  settled : ∀ p q r, [p, q, r].Sublist applied → p.1 = r.1 → q.1 = p.1

namespace Forward

variable {applied : List (Nat × Nat)} {last p : Nat × Nat}

theorem nil : Forward [] where
  rising := List.Pairwise.nil
  settled _ _ _ h := by cases List.sublist_nil.mp h

theorem le_last (h : Forward (applied ++ [last])) (hp : p ∈ applied ++ [last]) (hboot : p.1 = last.1) : p.2 ≤ last.2 := by
  rcases List.mem_append.mp hp with hold | hnew
  · have hlt := (List.pairwise_append.mp h.rising).2.2 p hold last (List.mem_singleton.mpr rfl) hboot
    omega
  · obtain rfl := List.mem_singleton.mp hnew
    exact Nat.le_refl _

theorem concat (h : Forward applied) {k r : Nat} (hlast : ∀ p ∈ applied, p.1 = k → applied.getLast?.map Prod.fst = some k)
    (hrev : ∀ last, applied.getLast? = some last → last.1 = k → last.2 < r) : Forward (applied ++ [(k, r)]) := by
  have hrises : ∀ p ∈ applied, p.1 = k → p.2 < r := by
    intro p hp hboot
    obtain ⟨last, hl, hk⟩ := Option.map_eq_some_iff.mp (hlast p hp hboot)
    obtain ⟨init, rfl⟩ := List.getLast?_eq_some_iff.mp hl
    have hle := h.le_last hp (hboot.trans hk.symm)
    have hlt := hrev last hl hk
    omega
  constructor
  · refine List.pairwise_append.mpr ⟨h.rising, List.pairwise_singleton _ _, fun p hp q hq hboot => ?_⟩
    rw [List.mem_singleton.mp hq] at hboot ⊢
    exact hrises p hp hboot
  · intro p q c hsub hboot
    have hthree : ([p, q] ++ [c]).Sublist (applied ++ [(k, r)]) := hsub
    rcases ordered_of_concat hthree with hold | ⟨hpair, rfl⟩
    · exact h.settled p q c hold hboot
    · have hp : p ∈ applied := hpair.subset (by simp)
      obtain ⟨last, hl, hk⟩ := Option.map_eq_some_iff.mp (hlast p hp hboot)
      obtain ⟨init, rfl⟩ := List.getLast?_eq_some_iff.mp hl
      have htwo : ([p] ++ [q]).Sublist (init ++ [last]) := hpair
      rcases ordered_of_concat htwo with hbefore | ⟨-, rfl⟩
      · exact h.settled p q last (hbefore.append (List.Sublist.refl [last])) (hboot.trans hk.symm)
      · exact hk.trans hboot.symm

end Forward

-- What the store's fields say of the snapshots applied since it was cleared.
structure Recorded (e : Engine Subagent) (w : Watched Subagent) : Prop where
  boot : w.store.engineBootId = w.applied.getLast?.map fun p => e.boot p.1
  revision : ∀ last, w.applied.getLast? = some last → w.store.engineSnapshotRevision = last.2
  retired : ∀ k, e.boot k ∈ w.store.retiredBootIds ↔
    k ∈ w.applied.map Prod.fst ∧ w.store.engineBootId ≠ some (e.boot k)
  forward : Forward w.applied

theorem recorded_start : Recorded e (machine e).start where
  boot := rfl
  revision _ h := by cases h
  retired _ := by simp [machine]
  forward := Forward.nil

theorem recorded_clear (w : Watched Subagent) : Recorded e { store := w.store.clear } where
  boot := rfl
  revision _ h := by cases h
  retired _ := by simp [ConductorState.clear]
  forward := Forward.nil

namespace Recorded

variable {w : Watched Subagent} {k r : Nat}

theorem last_of_boot (h : Recorded e w) (hboot : w.store.engineBootId = some (e.boot k)) :
    w.applied.getLast?.map Prod.fst = some k := by
  rw [h.boot] at hboot
  obtain ⟨last, hl, hk⟩ := Option.map_eq_some_iff.mp hboot
  rw [hl, Option.map_some, e.boot_injective hk]

theorem boot_of_last (h : Recorded e w) {last : Nat × Nat} (hl : w.applied.getLast? = some last) :
    w.store.engineBootId = some (e.boot last.1) := by rw [h.boot, hl, Option.map_some]

theorem current_of_applied (h : Recorded e w) (hfree : e.boot k ∉ w.store.retiredBootIds)
    (hk : k ∈ w.applied.map Prod.fst) : w.store.engineBootId = some (e.boot k) := by
  by_contra hnot
  exact hfree ((h.retired k).mpr ⟨hk, hnot⟩)

theorem apply (h : Recorded e w) (hfresh : Fresh e w.store k r) :
    Recorded e { store := applySnapshotOf e w.store k r, applied := w.applied ++ [(k, r)] } where
  boot := by simp [applySnapshotOf]
  revision last hl := by
    simp only [List.getLast?_concat, Option.some_inj] at hl
    rw [← hl]
    rfl
  retired j := by
    have hj := h.retired j
    have hk := h.current_of_applied hfresh.1
    simp only [applySnapshotOf, List.map_append, List.map_cons, List.map_nil, List.mem_append, List.mem_singleton, ne_eq,
      Option.some_inj, e.boot_injective.eq_iff]
    cases hl : w.applied.getLast? with
    | none =>
        obtain hnil := List.getLast?_eq_none_iff.mp hl
        rw [h.boot, hl, hnil] at hj
        rw [h.boot, hl, hnil]
        simp only [Option.map_none, truthy, Bool.false_eq_true, false_and, if_false, List.map_nil, List.not_mem_nil,
          false_or]
        constructor
        · exact fun hr => absurd (hj.mp hr).1 (by simp)
        · rintro ⟨rfl, hne⟩
          exact absurd rfl hne
    | some last =>
        have hin : last.1 ∈ w.applied.map Prod.fst := List.mem_map_of_mem (List.mem_of_getLast? hl)
        have hboot := h.boot_of_last hl
        rw [hboot] at hj hk ⊢
        simp only [truthy, bne_iff_ne, ne_eq, e.boot_ne_empty, not_false_eq_true, true_and, Option.some_inj,
          e.boot_injective.eq_iff] at hj hk ⊢
        by_cases hsame : k = last.1
        · rw [if_neg (by simpa using hsame), hj, hsame]
          constructor
          · exact fun ⟨hmem, hne⟩ => ⟨Or.inl hmem, hne⟩
          · rintro ⟨hmem | rfl, hne⟩
            · exact ⟨hmem, hne⟩
            · exact absurd rfl hne
        · rw [if_pos hsame, List.mem_append, hj]
          simp only [Option.toList_some, List.mem_singleton, e.boot_injective.eq_iff]
          have hnew : k ∉ w.applied.map Prod.fst := fun hmem => hsame (hk hmem).symm
          constructor
          · rintro (⟨hmem, -⟩ | rfl)
            · exact ⟨Or.inl hmem, fun hkj => hnew (hkj ▸ hmem)⟩
            · exact ⟨Or.inl hin, hsame⟩
          · rintro ⟨hmem | rfl, hne⟩
            · by_cases hlast : last.1 = j
              · exact Or.inr hlast.symm
              · exact Or.inl ⟨hmem, hlast⟩
            · exact absurd rfl hne
  forward := by
    refine h.forward.concat (fun p hp hboot => ?_) fun last hl hboot => ?_
    · exact h.last_of_boot (h.current_of_applied hfresh.1 (hboot ▸ List.mem_map_of_mem hp))
    · have hlt := hfresh.2 (hboot ▸ h.boot_of_last hl)
      rw [h.revision last hl] at hlt
      omega

end Recorded

theorem step_recorded {w w' : Watched Subagent} {a : Action} (h : Recorded e w) (hs : (machine e).next w a = some w') :
    Recorded e w' := by
  cases a with
  | clear =>
      cases hs
      exact recorded_clear w
  | deliver d =>
      cases hs
      rcases deliver_cases (e := e) w.store d with ⟨-, hfresh, hyes, hto⟩ | ⟨-, hno, hto⟩
      · rw [hto, hyes]
        exact h.apply hfresh
      · rw [hto, hno]
        exact h

theorem reachable_recorded {w : Watched Subagent} (hw : (machine e).Reachable w) : Recorded e w :=
  hw.invariant recorded_start fun _ _ _ h hs => step_recorded h hs

theorem boot_le_last {applied : List (Nat × Nat)} (h : applied.Pairwise Newer) {last p : Nat × Nat}
    (hl : applied.getLast? = some last) (hp : p ∈ applied) : p.1 ≤ last.1 := by
  obtain ⟨init, rfl⟩ := List.getLast?_eq_some_iff.mp hl
  rcases List.mem_append.mp hp with hold | hin
  · rcases (List.pairwise_append.mp h).2.2 p hold last (List.mem_singleton.mpr rfl) with hlt | ⟨heq, -⟩
    · exact Nat.le_of_lt hlt
    · exact Nat.le_of_eq heq
  · exact Nat.le_of_eq (congrArg Prod.fst (List.mem_singleton.mp hin))

theorem step_ordered {w w' : Watched Subagent} {a : Action} (hkept : Recorded e w) (h : w.applied.Pairwise Newer)
    (htimely : timely w a = true) (hs : (machine e).next w a = some w') : w'.applied.Pairwise Newer := by
  cases a with
  | clear =>
      cases hs
      exact List.Pairwise.nil
  | deliver d =>
      cases hs
      cases hyes : accepts e w.store d with
      | false => exact h
      | true =>
          obtain ⟨-, hfresh⟩ := accepts_iff.mp hyes
          have hnext := (hkept.apply hfresh).forward.rising
          refine List.pairwise_append.mpr ⟨h, List.pairwise_singleton _ _, fun p hp q hq => ?_⟩
          obtain rfl := List.mem_singleton.mp hq
          have hrise := (List.pairwise_append.mp hnext).2.2 p hp _ (List.mem_singleton.mpr rfl)
          rcases Nat.lt_trichotomy p.1 d.boot with hlt | heq | hgt
          · exact Or.inl hlt
          · exact Or.inr ⟨heq, hrise heq⟩
          · -- An earlier boot was applied before, so it is the store's own, and the last entry is of no later boot.
            simp only [timely, List.all_eq_true, decide_eq_true_eq] at htimely
            have hknown := htimely p hp hgt
            have hlast := hkept.last_of_boot (hkept.current_of_applied hfresh.1 hknown)
            obtain ⟨last, hl, hk⟩ := Option.map_eq_some_iff.mp hlast
            have hle := boot_le_last h hl hp
            omega

theorem reachable_ordered {w : Watched Subagent} (hw : ((machine e).restrict fun w a => timely w a = true).Reachable w) :
    w.applied.Pairwise Newer :=
  hw.invariant_with (Q := Recorded e) (fun hr => reachable_recorded hr.of_restrict) List.Pairwise.nil
    fun _ _ _ h hkept hs => step_ordered hkept h (Machine.restrict_next hs).1 (Machine.restrict_next hs).2

theorem fresh_of_newer {w : Watched Subagent} (hkept : Recorded e w) (h : w.applied.Pairwise Newer) {k r : Nat}
    (hnew : ∀ p ∈ w.applied, Newer p (k, r)) : Fresh e w.store k r := by
  constructor
  · intro hretired
    obtain ⟨hmem, hnot⟩ := (hkept.retired k).mp hretired
    obtain ⟨p, hp, rfl⟩ := List.mem_map.mp hmem
    obtain ⟨last, hl⟩ : ∃ last, w.applied.getLast? = some last :=
      Option.isSome_iff_exists.mp (List.getLast?_isSome.mpr (List.ne_nil_of_mem hp))
    have hboot := hkept.boot_of_last hl
    have hlast : last.1 ≤ p.1 := by
      rcases hnew last (List.mem_of_getLast? hl) with hlt | ⟨heq, -⟩
      · exact Nat.le_of_lt hlt
      · exact Nat.le_of_eq heq
    exact hnot (by rw [hboot, Nat.le_antisymm hlast (boot_le_last h hl hp)])
  · intro hboot
    obtain ⟨last, hl, hk⟩ := Option.map_eq_some_iff.mp (hkept.last_of_boot hboot)
    rw [hkept.revision last hl]
    rcases hnew last (List.mem_of_getLast? hl) with hlt | ⟨-, hlt⟩
    · have hne : last.1 < k := hlt
      omega
    · exact_mod_cast hlt

theorem snapshots_forward (e : Engine Subagent) :
    (∀ w, (machine e).Reachable w → Forward w.applied) ∧
    ∀ w, ((machine e).restrict fun w a => timely w a = true).Reachable w →
      w.applied.Pairwise Newer ∧
      ∀ d : Delivery, (∀ p ∈ w.applied, Newer p (d.boot, d.revision)) →
        (accepts e w.store d = true ↔ d.feed.fits e w.store d.boot) := by
  refine ⟨fun w hw => (reachable_recorded hw).forward, fun w hw => ⟨reachable_ordered hw, fun d hd => ?_⟩⟩
  rw [accepts_iff]
  exact and_iff_left (fresh_of_newer (reachable_recorded hw.of_restrict) (reachable_ordered hw) hd)

-- Boots named by a stroke for each boot so far, and one worker shown with its boot and revision.
def strokes : Engine (Nat × Nat) where
  boot k := String.ofList (List.replicate (k + 1) 'b')
  boot_injective j k h := by
    have hlists := congrArg List.length (String.ofList_injective h)
    simp only [List.length_replicate] at hlists
    omega
  boot_ne_empty k h := by
    have hlists := congrArg List.length (congrArg String.toList h)
    simp at hlists
  items k r := [(k, r)]

theorem snapshots_forward_strokes :
    ∃ w, ((machine strokes).restrict fun w a => timely w a = true).Reachable w ∧ w.applied = [(0, 3), (1, 0)] ∧
      Forward w.applied ∧ w.applied.Pairwise Newer ∧
      (accepts strokes w.store ⟨.hydrate 2, 2, 0⟩ = true ↔ Feed.fits strokes w.store 2 (.hydrate 2)) := by
  have hw : (((machine strokes).restrict fun w a => timely w a = true).run {}
      [.deliver ⟨.replace, 0, 3⟩, .deliver ⟨.replace, 1, 0⟩, .deliver ⟨.replace, 0, 4⟩]).map Watched.applied
      = some [(0, 3), (1, 0)] := by decide
  obtain ⟨w, hrun, happlied⟩ := Option.map_eq_some_iff.mp hw
  have hr : ((machine strokes).restrict fun w a => timely w a = true).Reachable w := ⟨_, hrun⟩
  obtain ⟨hordered, haccept⟩ := (snapshots_forward strokes).2 w hr
  refine ⟨w, hr, happlied, (snapshots_forward strokes).1 w hr.of_restrict, hordered, haccept ⟨.hydrate 2, 2, 0⟩ ?_⟩
  rw [happlied]
  decide

-- A snapshot of the first boot comes after one of the second: it is applied, and the second boot is retired.
-- And an answer of a boot the store does not know yet, asked for before the last event, is not taken.
theorem delayed_boot_applied :
    (∃ w, (machine strokes).Reachable w ∧ ¬w.applied.Pairwise Newer ∧ accepts strokes w.store ⟨.replace, 1, 1⟩ = false) ∧
    ∃ w, (machine strokes).Reachable w ∧ w.applied = [(0, 0)] ∧ accepts strokes w.store ⟨.hydrate 0, 1, 0⟩ = false := by
  have hfirst : ((machine strokes).run {} [.deliver ⟨.replace, 1, 0⟩, .deliver ⟨.replace, 0, 5⟩]).map
      (fun w => (w.applied, accepts strokes w.store ⟨.replace, 1, 1⟩)) = some ([(1, 0), (0, 5)], false) := by decide
  have hsecond : ((machine strokes).run {} [.deliver ⟨.replace, 0, 0⟩]).map
      (fun w => (w.applied, accepts strokes w.store ⟨.hydrate 0, 1, 0⟩)) = some ([(0, 0)], false) := by decide
  obtain ⟨w, hrun, hw⟩ := Option.map_eq_some_iff.mp hfirst
  obtain ⟨v, hrun', hv⟩ := Option.map_eq_some_iff.mp hsecond
  obtain ⟨happlied, hno⟩ := Prod.mk.inj hw
  obtain ⟨happlied', hno'⟩ := Prod.mk.inj hv
  refine ⟨⟨w, ⟨_, hrun⟩, ?_, hno⟩, v, ⟨_, hrun'⟩, happlied', hno'⟩
  rw [happlied]
  decide

end GaHub.Page
