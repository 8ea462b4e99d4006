import GaHub.Lib.Lists
import GaHub.Remote.Artifacts

namespace GaHub.Remote.Artifacts

open Lib

section Paths

variable {lower : String → String} {roots : List Path} {host : Host}

-- A regular file with one link under a root, none of the parts below the root hidden.
structure Deliverable (lower : String → String) (roots : List Path) (host : Host) (path : Path) (info : Info) : Prop where
  root : ∃ root ∈ roots, isRelativeTo lower path root = true ∧
    ∀ part ∈ path.parts.drop root.parts.length, hidden lower part = false
  ext : forbiddenExt.contains (lower path.suffix) = false
  stat : host.stat path = some info
  regular : info.regular = true
  nlink : info.nlink = 1
  size : info.id.size ≤ maxFile

theorem deliverable_of_safe {original path : Path} {info : Info} (h : safe lower roots host original = some (path, info)) :
    Deliverable lower roots host path info := by
  unfold safe at h
  split at h
  · cases h
  · rename_i root hroot
    split at h
    · cases h
    · obtain ⟨path', -, h⟩ := Option.bind_eq_some_iff.mp h
      split at h
      · cases h
      · rename_i hunder
        split at h
        · cases h
        · rename_i hparts
          split at h
          · cases h
          · rename_i hext
            obtain ⟨info', hstat, h⟩ := Option.bind_eq_some_iff.mp h
            split at h
            · cases h
            · rename_i hfile
              cases h
              simp only [not_or, not_not, Nat.not_lt] at hunder hfile
              refine ⟨⟨root, List.mem_of_find?_eq_some hroot, ?_, ?_⟩, ?_, hstat, ?_, hfile.2.1, ?_⟩
              · simpa using hunder
              · intro part hpart
                simp only [Bool.not_eq_true, List.any_eq_false] at hparts
                simpa using hparts part hpart
              · simpa using hext
              · simpa using hfile.1
              · simpa using hfile.2.2

end Paths

namespace Store

variable {s : Store} {now : ℚ}

-- The entries that are not expired, oldest first, and the tokens of those that leave room for one more.
def live (s : Store) (now : ℚ) : List (Token × Entry) := s.entries.entries.filter fun e => now - e.2.created < ttl

def newest (s : Store) (now : ℚ) : List Token := ((s.live now).drop ((s.live now).length + 1 - limit)).map Prod.fst

-- The two maps are inverse to each other, and tokens come from draws.
structure Sound (s : Store) : Prop where
  indexed : ∀ (t : Token) (e : Entry), s.entries.get? t = some e → s.index.get? e.key = some t
  backed : ∀ (key : Key) (t : Token), s.index.get? key = some t → ∃ e, s.entries.get? t = some e ∧ e.key = key
  drawn : ∀ t ∈ s.entries.keys, t < s.drawn

namespace Sound

theorem start : Sound {} := by
  constructor <;> simp

theorem forget (h : Sound s) {t : Token} {e : Entry} (hget : s.entries.get? t = some e) : Sound (s.forget t e) where
  indexed t' e' hget' := by
    simp only [Store.forget, Dict.get?_erase] at hget' ⊢
    split at hget'
    · cases hget'
    · rename_i hne
      have hindex := h.indexed t' e' hget'
      have hkey : e'.key ≠ e.key := by
        intro heq
        rw [heq, h.indexed t e hget] at hindex
        exact hne (Option.some.inj hindex).symm
      rw [if_neg hkey, hindex]
  backed key t' hindex := by
    simp only [Store.forget, Dict.get?_erase] at hindex ⊢
    split at hindex
    · cases hindex
    · rename_i hne
      obtain ⟨e', hget', hkey⟩ := h.backed key t' hindex
      refine ⟨e', ?_, hkey⟩
      have hother : t' ≠ t := by
        rintro rfl
        rw [hget] at hget'
        cases hget'
        exact hne hkey.symm
      rw [if_neg hother, hget']
  drawn t' ht' := by
    simp only [Store.forget, Dict.keys_erase, List.mem_filter] at ht'
    exact h.drawn t' ht'.1

theorem evict (h : Sound s) (n : Nat) : Sound (s.evict n) := by
  induction n generalizing s with
  | zero => exact h
  | succ n ih =>
      unfold Store.evict
      split
      · exact h
      · rename_i e rest heq
        exact ih (h.forget (Dict.mem_entries_iff.mp (heq ▸ List.mem_cons_self)))

theorem expireList (h : Sound s) {l : List (Token × Entry)} (hnodup : (l.map Prod.fst).Nodup)
    (hmem : ∀ e ∈ l, s.entries.get? e.1 = some e.2) :
    Sound (l.foldl (fun s e => if now - e.2.created ≥ ttl then s.forget e.1 e.2 else s) s) := by
  induction l generalizing s with
  | nil => exact h
  | cons e l ih =>
      rw [List.map_cons, List.nodup_cons] at hnodup
      rw [List.foldl_cons]
      split
      · refine ih (h.forget (hmem e List.mem_cons_self)) hnodup.2 fun e' he' => ?_
        have hne : e'.1 ≠ e.1 := by
          intro heq
          exact hnodup.1 (heq ▸ List.mem_map_of_mem he')
        rw [Store.forget, Dict.get?_erase_ne _ hne]
        exact hmem e' (List.mem_cons_of_mem _ he')
      · exact ih h hnodup.2 fun e' he' => hmem e' (List.mem_cons_of_mem _ he')

theorem expire (h : Sound s) (now : ℚ) : Sound (s.expire now) :=
  h.expireList s.entries.nodup_keys fun _ he => Dict.mem_entries_iff.mp he

theorem prune (h : Sound s) (now : ℚ) : Sound (s.prune now) := (h.expire now).evict _

end Sound

theorem entries_expireList (l : List (Token × Entry)) (s : Store) :
    (l.foldl (fun s e => if now - e.2.created ≥ ttl then s.forget e.1 e.2 else s) s).entries.entries =
      s.entries.entries.filter fun e => !l.any fun x => now - x.2.created ≥ ttl && x.1 = e.1 := by
  induction l generalizing s with
  | nil => simp
  | cons x l ih =>
      rw [List.foldl_cons, ih]
      split
      · rename_i hold
        simp only [Store.forget, Dict.erase, Dict.filter, List.filter_filter]
        refine List.filter_congr fun e _ => ?_
        by_cases hx : x.1 = e.1
        · simp [hold, hx]
        · simp [hx, Ne.symm hx]
      · rename_i hyoung
        refine List.filter_congr fun e _ => ?_
        simp [hyoung]

theorem entries_expire (s : Store) (now : ℚ) : (s.expire now).entries.entries = s.live now := by
  unfold expire live
  rw [entries_expireList]
  refine List.filter_congr fun e he => ?_
  by_cases hold : now - e.2.created ≥ ttl
  · have hany : (s.entries.entries.any fun x => now - x.2.created ≥ ttl && x.1 = e.1) = true :=
      List.any_eq_true.mpr ⟨e, he, by simp [hold]⟩
    simp [hany, hold]
  · have hany : (s.entries.entries.any fun x => now - x.2.created ≥ ttl && x.1 = e.1) = false := by
      rw [List.any_eq_false]
      intro x hx
      by_cases hkey : x.1 = e.1
      · have heq : x.2 = e.2 := by
          have hget := Dict.mem_entries_iff.mp hx
          rw [hkey, Dict.mem_entries_iff.mp he] at hget
          exact (Option.some.inj hget).symm
        simp [heq, hold]
      · simp [hkey]
    simp [hany, not_le.mp hold]

theorem entries_evict (s : Store) (n : Nat) : (s.evict n).entries.entries = s.entries.entries.drop n := by
  induction n generalizing s with
  | zero => rfl
  | succ n ih =>
      unfold evict
      split
      · rename_i heq
        simp [heq]
      · rename_i e rest heq
        rw [ih, heq, List.drop_succ_cons]
        congr 1
        have hnodup := s.entries.nodup_keys
        rw [heq, List.map_cons, List.nodup_cons] at hnodup
        simp only [forget, Dict.erase, Dict.filter, heq]
        rw [List.filter_cons_of_neg (by simp)]
        refine List.filter_eq_self.mpr fun e' he' => decide_eq_true fun hkey => ?_
        exact hnodup.1 (hkey ▸ List.mem_map_of_mem he')

theorem entries_prune (s : Store) (now : ℚ) :
    (s.prune now).entries.entries = (s.live now).drop ((s.live now).length + 1 - limit) := by
  unfold prune
  rw [entries_evict, entries_expire, Dict.size, entries_expire]

theorem keys_prune (s : Store) (now : ℚ) : (s.prune now).entries.keys = s.newest now := by
  rw [Dict.keys, entries_prune, newest]

theorem drawn_evict (s : Store) (n : Nat) : (s.evict n).drawn = s.drawn := by
  induction n generalizing s with
  | zero => rfl
  | succ n ih =>
      unfold evict
      split
      · rfl
      · exact ih _

theorem drawn_prune (s : Store) (now : ℚ) : (s.prune now).drawn = s.drawn := by
  unfold prune expire
  rw [drawn_evict]
  generalize s.entries.entries = l
  induction l generalizing s with
  | nil => rfl
  | cons e l ih =>
      rw [List.foldl_cons, ih]
      split <;> rfl

theorem prune_of_room (hyoung : ∀ e ∈ s.entries.entries, now - e.2.created < ttl) (hroom : s.entries.size < limit) :
    s.prune now = s := by
  have hexpire : ∀ l : List (Token × Entry), (∀ e ∈ l, now - e.2.created < ttl) →
      l.foldl (fun s e => if now - e.2.created ≥ ttl then s.forget e.1 e.2 else s) s = s := by
    intro l hl
    induction l with
    | nil => rfl
    | cons e l ih =>
        rw [List.foldl_cons, if_neg (not_le.mpr (hl e List.mem_cons_self))]
        exact ih fun e' he' => hl e' (List.mem_cons_of_mem _ he')
  have hnone : s.entries.size + 1 - limit = 0 := by omega
  unfold prune expire
  dsimp only
  rw [hexpire _ hyoung, hnone]
  rfl

theorem size_prune (s : Store) (now : ℚ) : (s.prune now).entries.size < limit := by
  have hsize : (s.prune now).entries.size = (s.live now).length - ((s.live now).length + 1 - limit) := by
    simp only [Dict.size_eq_length_keys, keys_prune, newest, List.length_map, List.length_drop]
  have hlimit : 0 < limit := by decide
  omega

theorem get?_of_prune {t : Token} {e : Entry} (h : (s.prune now).entries.get? t = some e) :
    s.entries.get? t = some e := by
  have hmem : (t, e) ∈ (s.prune now).entries.entries := Dict.mem_entries_iff.mpr h
  rw [entries_prune] at hmem
  exact Dict.mem_entries_iff.mp (List.mem_filter.mp (List.mem_of_mem_drop hmem)).1

theorem Sound.add (h : Sound s) (now : ℚ) {key : Key} (hnone : s.index.get? key = none) : Sound (s.add now key) where
  indexed t e hget := by
    simp only [Store.add, Dict.get?_set] at hget ⊢
    split at hget
    · rename_i heq
      cases hget
      simp [heq]
    · have hindex := h.indexed t e hget
      have hkey : e.key ≠ key := by
        rintro rfl
        rw [hnone] at hindex
        cases hindex
      rw [if_neg hkey, hindex]
  backed key' t hindex := by
    simp only [Store.add, Dict.get?_set] at hindex ⊢
    split at hindex
    · rename_i heq
      cases hindex
      exact ⟨⟨now, key, key.path, key.id⟩, by simp, heq.symm⟩
    · obtain ⟨e, hget, hkey⟩ := h.backed key' t hindex
      have hlt := h.drawn t (Dict.mem_keys_of_get? hget)
      exact ⟨e, by rw [if_neg (Nat.ne_of_lt hlt), hget], hkey⟩
  drawn t ht := by
    simp only [Store.add, Dict.keys_set] at ht ⊢
    split at ht
    · exact Nat.lt_succ_of_lt (h.drawn t ht)
    · rcases List.mem_append.mp ht with hold | hnew
      · exact Nat.lt_succ_of_lt (h.drawn t hold)
      · rw [List.mem_singleton.mp hnew]
        exact Nat.lt_succ_self _

theorem issue_cases (h : Sound s) (look : Look) (key : Key) :
    (∃ t e, s.issue look key = (s, t) ∧ s.entries.get? t = some e ∧ e.key = key) ∨
      (s.index.get? key = none ∧ s.issue look key = ((s.prune look.pruned).add look.created key, s.drawn)) := by
  unfold issue
  split
  · rename_i t hindex
    obtain ⟨e, hget, hkey⟩ := h.backed key t hindex
    rw [if_pos (Dict.mem_keys_of_get? hget)]
    exact Or.inl ⟨t, e, rfl, hget, hkey⟩
  · rename_i hnone
    exact Or.inr ⟨hnone, rfl⟩

theorem issue_of_index (h : Sound s) {key : Key} {t : Token} (hindex : s.index.get? key = some t) (look : Look) :
    s.issue look key = (s, t) := by
  obtain ⟨e, hget, -⟩ := h.backed key t hindex
  simp [issue, hindex, Dict.mem_keys_of_get? hget]

theorem issue_of_none {key : Key} (hnone : s.index.get? key = none) (look : Look) :
    s.issue look key = ((s.prune look.pruned).add look.created key, s.drawn) := by
  simp [issue, hnone]

theorem index_of_prune (h : Sound s) {key : Key} (hnone : s.index.get? key = none) :
    (s.prune now).index.get? key = none := by
  rw [Option.eq_none_iff_forall_not_mem]
  intro t hindex
  obtain ⟨e, hget, hkey⟩ := (h.prune now).backed key t hindex
  rw [← hkey, h.indexed t e (get?_of_prune hget)] at hnone
  cases hnone

end Store

-- The final body of a compact assistant message cited the file, and the link got the token then.
structure Backs (lower : String → String) (roots : List Path) (i : Issued) (t : Token) (e : Entry) : Prop where
  token : i.token = t
  time : i.time = e.created
  owner : i.owner = e.key.owner
  sid : i.sid = e.key.sid
  assistant : i.message.role = "assistant"
  compact : i.message.compact = true
  cited : i.raw ∈ references i.message.finalBody
  file : ∃ info, resolve lower roots i.host i.raw = some (e.path, info) ∧ info.id = e.id

section Decorate

variable {lower : String → String} {roots : List Path} {looks : Nat → Look} {owner : Owner} {sid : SessionId}
  {past : List Issued} {work : Work} {message : Message} {links : List Link}

structure Good (lower : String → String) (roots : List Path) (past : List Issued) (work : Work) : Prop where
  sound : work.store.Sound
  bounded : work.store.entries.size ≤ limit
  backed : ∀ (t : Token) (e : Entry), work.store.entries.get? t = some e →
    ∃ i ∈ past ++ work.issued, Backs lower roots i t e
  drawn : ∀ i ∈ work.issued, i.token < work.store.drawn
  named : ∀ i ∈ work.issued, ∀ e, work.store.entries.get? i.token = some e → e.key.owner = i.owner ∧ e.key.sid = i.sid

theorem Good.cite (h : Good lower roots past work) {raw : String} (hrole : message.role = "assistant")
    (hcompact : message.compact = true) (hraw : raw ∈ references message.finalBody) :
    Good lower roots past (cite lower roots looks owner sid message (work, links) raw).1 := by
  unfold Artifacts.cite
  dsimp only
  split
  · exact h
  · split
    · exact ⟨h.sound, h.bounded, h.backed, h.drawn, h.named⟩
    · rename_i path info hresolve
      rcases Store.issue_cases h.sound (looks work.turn) ⟨owner, sid, path, info.id⟩ with
        ⟨t, e, hissue, hget, hkey⟩ | ⟨hnone, hissue⟩
      · rw [hissue]
        refine ⟨h.sound, h.bounded, ?_, ?_, ?_⟩
        · intro t' e' hget'
          obtain ⟨i, hi, hbacks⟩ := h.backed t' e' hget'
          exact ⟨i, by rw [← List.append_assoc]; exact List.mem_append_left _ hi, hbacks⟩
        · intro i hi
          rcases List.mem_append.mp hi with hi | hi
          · exact h.drawn i hi
          · rw [List.mem_singleton.mp hi]
            exact h.sound.drawn t (Dict.mem_keys_of_get? hget)
        · intro i hi e' hget'
          rcases List.mem_append.mp hi with hi | hi
          · exact h.named i hi e' hget'
          · rw [List.mem_singleton] at hi
            subst hi
            rw [hget] at hget'
            cases hget'
            simp [hkey]
      · rw [hissue]
        have hprune := h.sound.prune (looks work.turn).pruned
        refine ⟨hprune.add _ (Store.index_of_prune h.sound hnone), ?_, ?_, ?_, ?_⟩
        · have hsize := Store.size_prune work.store (looks work.turn).pruned
          have hset := Dict.size_set_le (work.store.prune (looks work.turn).pruned).entries
            (work.store.prune (looks work.turn).pruned).drawn
            ⟨(looks work.turn).created, ⟨owner, sid, path, info.id⟩, path, info.id⟩
          simp only [Store.add]
          omega
        · intro t' e' hget'
          simp only [Store.add, Dict.get?_set] at hget'
          split at hget'
          · rename_i heq
            cases hget'
            rw [Store.drawn_prune] at heq
            refine ⟨_, List.mem_append_right _ (List.mem_append_right _ List.mem_cons_self), ?_⟩
            exact ⟨heq.symm, rfl, rfl, rfl, hrole, hcompact, hraw, info, hresolve, rfl⟩
          · obtain ⟨i, hi, hbacks⟩ := h.backed t' e' (Store.get?_of_prune hget')
            exact ⟨i, by rw [← List.append_assoc]; exact List.mem_append_left _ hi, hbacks⟩
        · intro i hi
          simp only [Store.add, Store.drawn_prune]
          rcases List.mem_append.mp hi with hi | hi
          · exact Nat.lt_succ_of_lt (h.drawn i hi)
          · rw [List.mem_singleton.mp hi]
            exact Nat.lt_succ_self _
        · intro i hi e' hget'
          simp only [Store.add, Dict.get?_set, Store.drawn_prune] at hget'
          rcases List.mem_append.mp hi with hi | hi
          · rw [if_neg (Nat.ne_of_lt (h.drawn i hi))] at hget'
            exact h.named i hi e' (Store.get?_of_prune hget')
          · rw [List.mem_singleton] at hi
            subst hi
            simp only [if_true, Option.some.injEq] at hget'
            subst hget'
            exact ⟨rfl, rfl⟩

theorem Good.cites (h : Good lower roots past work) (hrole : message.role = "assistant") (hcompact : message.compact = true)
    {raws : List String} (hraws : ∀ raw ∈ raws, raw ∈ references message.finalBody) :
    Good lower roots past (raws.foldl (Artifacts.cite lower roots looks owner sid message) (work, links)).1 := by
  induction raws generalizing work links with
  | nil => exact h
  | cons raw raws ih =>
      rw [List.foldl_cons]
      exact ih (h.cite hrole hcompact (hraws raw List.mem_cons_self)) fun raw' hraw' => hraws raw' (List.mem_cons_of_mem _ hraw')

theorem Good.decorateMessage (h : Good lower roots past work) (message : Message) :
    Good lower roots past (decorateMessage lower roots looks owner sid work message).1 := by
  unfold Artifacts.decorateMessage
  dsimp only
  split
  · exact h
  · rename_i hassistant
    simp only [not_or, not_not] at hassistant
    have hrole : ({ message with artifacts := none } : Message).role = "assistant" := hassistant.1
    exact h.cites hrole hassistant.2 fun raw hraw => hraw

theorem Good.decorateItems (h : Good lower roots past work) (items : List Message) :
    Good lower roots past (decorateItems lower roots looks owner sid work items).1 := by
  induction items generalizing work with
  | nil => exact h
  | cons message items ih => exact ih (h.decorateMessage message)

theorem cite_of_resolve {found : Work × List Link} {raw : String} {path : Path} {info : Info} (hfew : found.2.length < 8)
    (hresolve : resolve lower roots (looks found.1.turn).host raw = some (path, info)) :
    ∃ link, cite lower roots looks owner sid message found raw =
      ({ store := (found.1.store.issue (looks found.1.turn) ⟨owner, sid, path, info.id⟩).1
         turn := found.1.turn + 1
         issued := found.1.issued ++ [⟨(found.1.store.issue (looks found.1.turn) ⟨owner, sid, path, info.id⟩).2,
           (looks found.1.turn).created, owner, sid, message, raw, (looks found.1.turn).host, link⟩] },
        found.2 ++ [link]) := by
  unfold cite
  dsimp only
  rw [if_neg (Nat.not_le.mpr hfew), hresolve]
  exact ⟨_, rfl⟩

-- A citation that needs a new token finds the tokens of the links before it among the newest.
def Room (lower : String → String) (roots : List Path) (looks : Nat → Look) (owner : Owner) (sid : SessionId)
    (found : Work × List Link) (raw : String) : Prop :=
  found.2.length < 8 → ∀ path info, resolve lower roots (looks found.1.turn).host raw = some (path, info) →
    found.1.store.index.get? ⟨owner, sid, path, info.id⟩ = none →
    ∀ i ∈ found.1.issued, i.token ∈ found.1.store.newest (looks found.1.turn).pruned

def RoomyCites (lower : String → String) (roots : List Path) (looks : Nat → Look) (owner : Owner) (sid : SessionId)
    (message : Message) : Work × List Link → List String → Prop
  | _, [] => True
  | found, raw :: rest =>
      Room lower roots looks owner sid found raw ∧
        RoomyCites lower roots looks owner sid message (cite lower roots looks owner sid message found raw) rest

def Roomy (lower : String → String) (roots : List Path) (looks : Nat → Look) (owner : Owner) (sid : SessionId) :
    Work → List Message → Prop
  | _, [] => True
  | work, message :: rest =>
      (message.role = "assistant" → message.compact = true →
        RoomyCites lower roots looks owner sid { message with artifacts := none } (work, [])
          (references message.finalBody)) ∧
        Roomy lower roots looks owner sid (decorateMessage lower roots looks owner sid work message).1 rest

def Alive (work : Work) : Prop := ∀ i ∈ work.issued, i.token ∈ work.store.entries.keys

theorem Good.cite_alive (h : Good lower roots past work) (raw : String) :
    Alive (Artifacts.cite lower roots looks owner sid message (work, links) raw).1 ↔
      Alive work ∧ Room lower roots looks owner sid (work, links) raw := by
  unfold Artifacts.cite Room
  dsimp only
  split
  · rename_i hfull
    exact (and_iff_left fun hlt => absurd hlt (Nat.not_lt.mpr hfull)).symm
  · rename_i hfull
    rw [imp_iff_right (Nat.lt_of_not_le hfull)]
    split
    · rename_i hresolve
      exact (and_iff_left fun path info hsome => by rw [hresolve] at hsome; cases hsome).symm
    · rename_i path info hresolve
      rcases Store.issue_cases h.sound (looks work.turn) ⟨owner, sid, path, info.id⟩ with
        ⟨t, e, hissue, hget, hkey⟩ | ⟨hnone, hissue⟩
      · rw [hissue]
        have hroom : ∀ path' info', resolve lower roots (looks work.turn).host raw = some (path', info') →
            work.store.index.get? ⟨owner, sid, path', info'.id⟩ = none →
            ∀ i ∈ work.issued, i.token ∈ work.store.newest (looks work.turn).pruned := by
          intro path' info' hsome hnone
          rw [hresolve] at hsome
          cases hsome
          rw [← hkey, h.sound.indexed t e hget] at hnone
          cases hnone
        rw [and_iff_left hroom]
        simp only [Alive, List.mem_append, List.mem_singleton, or_imp, forall_and, forall_eq]
        exact and_iff_left (Dict.mem_keys_of_get? hget)
      · rw [hissue]
        have hkeys : ∀ i ∈ work.issued, i.token ∈ ((work.store.prune (looks work.turn).pruned).add
            (looks work.turn).created ⟨owner, sid, path, info.id⟩).entries.keys ↔
            i.token ∈ work.store.newest (looks work.turn).pruned := by
          intro i hi
          rw [← Store.keys_prune, Dict.mem_keys_iff, Dict.mem_keys_iff]
          simp only [Store.add, Dict.get?_set, Store.drawn_prune]
          rw [if_neg (Nat.ne_of_lt (h.drawn i hi))]
        have hnew : work.store.drawn ∈ ((work.store.prune (looks work.turn).pruned).add
            (looks work.turn).created ⟨owner, sid, path, info.id⟩).entries.keys := by
          simp only [Dict.mem_keys_iff, Store.add, Dict.get?_set, Store.drawn_prune, if_true]
          exact ⟨_, rfl⟩
        constructor
        · intro halive
          have hnewest : ∀ i ∈ work.issued, i.token ∈ work.store.newest (looks work.turn).pruned := fun i hi =>
            (hkeys i hi).mp (halive i (List.mem_append_left _ hi))
          refine ⟨fun i hi => ?_, fun _ _ _ _ => hnewest⟩
          have hin := hnewest i hi
          rw [← Store.keys_prune, Dict.mem_keys_iff] at hin
          obtain ⟨e, hget⟩ := hin
          exact Dict.mem_keys_of_get? (Store.get?_of_prune hget)
        · rintro ⟨-, hroom⟩ i hi
          rcases List.mem_append.mp hi with hi | hi
          · exact (hkeys i hi).mpr (hroom path info hresolve hnone i hi)
          · rw [List.mem_singleton.mp hi]
            exact hnew

theorem Good.cites_alive (h : Good lower roots past work) (hrole : message.role = "assistant")
    (hcompact : message.compact = true) {raws : List String} (hraws : ∀ raw ∈ raws, raw ∈ references message.finalBody) :
    Alive (raws.foldl (Artifacts.cite lower roots looks owner sid message) (work, links)).1 ↔
      Alive work ∧ RoomyCites lower roots looks owner sid message (work, links) raws := by
  induction raws generalizing work links with
  | nil => simp [RoomyCites]
  | cons raw raws ih =>
      have hcite : Good lower roots past (Artifacts.cite lower roots looks owner sid message (work, links) raw).1 :=
        h.cite hrole hcompact (hraws raw List.mem_cons_self)
      rw [List.foldl_cons, RoomyCites, ← and_assoc, ← h.cite_alive raw]
      exact ih hcite fun raw' hraw' => hraws raw' (List.mem_cons_of_mem _ hraw')

theorem Good.items_alive (h : Good lower roots past work) (items : List Message) :
    Alive (Artifacts.decorateItems lower roots looks owner sid work items).1 ↔
      Alive work ∧ Roomy lower roots looks owner sid work items := by
  induction items generalizing work with
  | nil => simp [Artifacts.decorateItems, Roomy]
  | cons message items ih =>
      have hmessage : Alive (Artifacts.decorateMessage lower roots looks owner sid work message).1 ↔
          Alive work ∧ (message.role = "assistant" → message.compact = true →
            RoomyCites lower roots looks owner sid { message with artifacts := none } (work, [])
              (references message.finalBody)) := by
        unfold Artifacts.decorateMessage
        dsimp only
        split
        · rename_i hother
          refine (and_iff_left fun hrole hcompact => ?_).symm
          rcases hother with hother | hother
          · exact absurd hrole hother
          · exact absurd hcompact hother
        · rename_i hassistant
          simp only [not_or, not_not] at hassistant
          have hrole : ({ message with artifacts := none } : Message).role = "assistant" := hassistant.1
          rw [h.cites_alive hrole hassistant.2 fun raw hraw => hraw]
          exact and_congr_right fun _ => ⟨fun hroomy _ _ => hroomy, fun hroomy => hroomy hassistant.1 hassistant.2⟩
      rw [Roomy, ← and_assoc, ← hmessage]
      exact ih (h.decorateMessage message)

theorem issued_cites (found : Work × List Link) (raws : List String) : ∃ new : List Issued,
    (raws.foldl (cite lower roots looks owner sid message) found).1.issued = found.1.issued ++ new ∧
      (raws.foldl (cite lower roots looks owner sid message) found).2 = found.2 ++ new.map Issued.link ∧
      ∀ i ∈ new, i.owner = owner ∧ i.sid = sid ∧ i.link.url = (sid, i.token) := by
  induction raws generalizing found with
  | nil => exact ⟨[], by simp⟩
  | cons raw raws ih =>
      obtain ⟨new, hissued, hlinks, hnew⟩ := ih (cite lower roots looks owner sid message found raw)
      rw [List.foldl_cons, hissued, hlinks]
      unfold cite
      dsimp only
      split
      · exact ⟨new, rfl, rfl, hnew⟩
      · split
        · exact ⟨new, rfl, rfl, hnew⟩
        · refine ⟨_ :: new, by rw [List.append_assoc, List.singleton_append], ?_, ?_⟩
          · rw [List.append_assoc, List.singleton_append, List.map_cons]
          · intro i hi
            rcases List.mem_cons.mp hi with rfl | hi
            · exact ⟨rfl, rfl, rfl⟩
            · exact hnew i hi

theorem issued_items (work : Work) (items : List Message) : ∃ new : List Issued,
    (decorateItems lower roots looks owner sid work items).1.issued = work.issued ++ new ∧
      (decorateItems lower roots looks owner sid work items).2.flatMap (fun message => message.artifacts.getD []) =
        new.map Issued.link ∧
      ∀ i ∈ new, i.owner = owner ∧ i.sid = sid ∧ i.link.url = (sid, i.token) := by
  induction items generalizing work with
  | nil => exact ⟨[], by simp [decorateItems]⟩
  | cons message items ih =>
      obtain ⟨new, hissued, hlinks, hnew⟩ := ih (decorateMessage lower roots looks owner sid work message).1
      simp only [decorateItems, List.flatMap_cons, hissued, hlinks]
      unfold decorateMessage
      dsimp only
      split
      · exact ⟨new, rfl, rfl, hnew⟩
      · obtain ⟨first, hfirst, hlinks', hfirst'⟩ := @issued_cites lower roots looks owner sid
          { message with artifacts := none } (work, []) (references message.finalBody)
        rw [List.nil_append] at hlinks'
        refine ⟨first ++ new, ?_, ?_, ?_⟩
        · rw [hfirst, List.append_assoc]
        · rw [hlinks', List.map_append]
          congr 1
          split
          · rename_i hempty
            rw [hempty]
            rfl
          · rfl
        · intro i hi
          exact (List.mem_append.mp hi).elim (hfirst' i) (hnew i)

theorem Good.links_found (h : Good lower roots past work) (hempty : work.issued = []) (items : List Message) :
    (∀ message ∈ (Artifacts.decorateItems lower roots looks owner sid work items).2, ∀ links,
        message.artifacts = some links → ∀ link ∈ links, ∃ e,
          (Artifacts.decorateItems lower roots looks owner sid work items).1.store.entries.get? link.url.2 = some e ∧
            e.key.owner = owner ∧ e.key.sid = sid) ↔
      Roomy lower roots looks owner sid work items := by
  obtain ⟨new, hissued, hlinks, hnew⟩ := @issued_items lower roots looks owner sid work items
  rw [hempty, List.nil_append] at hissued
  have hgood : Good lower roots past (Artifacts.decorateItems lower roots looks owner sid work items).1 :=
    h.decorateItems items
  have halive : Alive work := by simp [Alive, hempty]
  rw [← and_iff_right (b := Roomy lower roots looks owner sid work items) halive, ← h.items_alive items]
  constructor
  · intro hfound i hi
    rw [hissued] at hi
    have hlink : i.link ∈ new.map Issued.link := List.mem_map_of_mem hi
    rw [← hlinks, List.mem_flatMap] at hlink
    obtain ⟨message, hmessage, hin⟩ := hlink
    cases hartifacts : message.artifacts with
    | none => simp [hartifacts] at hin
    | some links =>
        rw [hartifacts, Option.getD_some] at hin
        obtain ⟨e, hget, -⟩ := hfound message hmessage links hartifacts i.link hin
        rw [(hnew i hi).2.2] at hget
        exact Dict.mem_keys_of_get? hget
  · intro hall message hmessage links hartifacts link hin
    have hlink : link ∈ new.map Issued.link := by
      rw [← hlinks, List.mem_flatMap]
      exact ⟨message, hmessage, by rw [hartifacts]; exact hin⟩
    obtain ⟨i, hi, rfl⟩ := List.mem_map.mp hlink
    obtain ⟨howner, hsid, hurl⟩ := hnew i hi
    have hissue : i ∈ (Artifacts.decorateItems lower roots looks owner sid work items).1.issued := by
      rw [hissued]
      exact hi
    obtain ⟨e, hget⟩ := Dict.mem_keys_iff.mp (hall i hissue)
    have hnamed := hgood.named i hissue e hget
    rw [hurl]
    exact ⟨e, hget, hnamed.1.trans howner, hnamed.2.trans hsid⟩

end Decorate

section Worlds

variable {lower : String → String} {roots : List Path} {w : World}

structure World.Good (lower : String → String) (roots : List Path) (w : World) : Prop where
  sound : w.store.Sound
  bounded : w.store.entries.size ≤ limit
  backed : ∀ (t : Token) (e : Entry), w.store.entries.get? t = some e → ∃ i ∈ w.issued, Backs lower roots i t e

theorem World.Good.work (h : w.Good lower roots) (now : ℚ) :
    Artifacts.Good lower roots w.issued { store := w.store.prune now } := by
  have hsound : (w.store.prune now).Sound := h.sound.prune now
  have hsize : (w.store.prune now).entries.size < limit := Store.size_prune w.store now
  generalize hpruned : w.store.prune now = pruned at hsound hsize ⊢
  refine ⟨hsound, hsize.le, ?_, by simp, by simp⟩
  intro t e hget
  rw [List.append_nil]
  change pruned.entries.get? t = some e at hget
  rw [← hpruned] at hget
  exact h.backed t e (Store.get?_of_prune hget)

theorem good_of_reachable (hw : (artifacts lower roots).Reachable w) : w.Good lower roots := by
  refine hw.invariant (P := World.Good lower roots) ⟨Store.Sound.start, Nat.zero_le _, by simp [artifacts]⟩ ?_
  intro w a w' h hnext
  cases a with
  | decorate now looks owner sid items =>
      cases hnext
      have hdecorate : Artifacts.Good lower roots w.issued (decorate lower roots looks owner sid now w.store items).1 :=
        (h.work now).decorateItems items
      exact ⟨hdecorate.sound, hdecorate.bounded, hdecorate.backed⟩
  | download =>
      cases hnext
      exact h

theorem file_links (hw : (artifacts lower roots).Reachable w) :
    ((∀ t e, w.store.entries.get? t = some e → w.store.index.get? e.key = some t) ∧
        (∀ key t, w.store.index.get? key = some t → ∃ e, w.store.entries.get? t = some e ∧ e.key = key) ∧
        w.store.entries.size ≤ 1024) ∧
      (∀ sid token owner now host opened info,
        w.store.download lower roots sid token owner now host opened = .streamed info →
        ∃ i ∈ w.issued, i.token = token ∧ i.owner = owner ∧ i.sid = sid ∧ now - i.time < 1800 ∧
          i.message.role = "assistant" ∧ i.message.compact = true ∧ i.raw ∈ references i.message.finalBody ∧
          ∃ path cited path' checked, resolve lower roots i.host i.raw = some (path, cited) ∧
            safe lower roots host path = some (path', checked) ∧ Deliverable lower roots host path' checked ∧
            checked.id = cited.id ∧ info.id = cited.id) ∧
      ∀ now looks owner sid items,
        (∀ message ∈ (decorate lower roots looks owner sid now w.store items).2, ∀ links,
            message.artifacts = some links → ∀ link ∈ links, ∃ e,
              (decorate lower roots looks owner sid now w.store items).1.store.entries.get? link.url.2 = some e ∧
                e.key.owner = owner ∧ e.key.sid = sid) ↔
          Roomy lower roots looks owner sid { store := w.store.prune now } items := by
  have h := good_of_reachable hw
  refine ⟨⟨h.sound.indexed, h.sound.backed, h.bounded⟩, ?_, ?_⟩
  · intro sid token owner now host opened info hstreamed
    unfold Store.download at hstreamed
    split at hstreamed
    · cases hstreamed
    · rename_i entry hget
      split at hstreamed
      · cases hstreamed
      · rename_i hlink
        split at hstreamed
        · rename_i path' checked file hsafe
          split at hstreamed
          · cases hstreamed
          · rename_i hid
            split at hstreamed
            · split at hstreamed
              · cases hstreamed
                simp only [not_or, not_not, not_le, ge_iff_le] at hlink hid
                obtain ⟨i, hi, hbacks⟩ := h.backed token entry hget
                obtain ⟨cited, hcited, hidentity⟩ := hbacks.file
                refine ⟨i, hi, hbacks.token, hbacks.owner.trans hlink.1, hbacks.sid.trans hlink.2.1, ?_, hbacks.assistant,
                  hbacks.compact, hbacks.cited, entry.path, cited, path', checked, hcited, hsafe,
                  deliverable_of_safe hsafe, hid.1.trans hidentity.symm, hid.2.1.trans hidentity.symm⟩
                rw [hbacks.time]
                exact hlink.2.2
              · cases hstreamed
            · cases hstreamed
        · cases hstreamed
  · intro now looks owner sid items
    exact (h.work now).links_found rfl items

end Worlds

section Runs

def root : Path := ⟨"c:\\", ["hub", "temp"]⟩

def report : Path := ⟨"c:\\", ["hub", "temp", "a.txt"]⟩

def file : Info := ⟨true, 1, ⟨0, 7, 1, 0⟩⟩

def disk : Host := ⟨fun _ => true, some, fun _ => some file⟩

def looks (now : ℚ) (_ : Nat) : Look := ⟨disk, now, now, now⟩

def citing (body : String) : Message := { role := "assistant", compact := true, finalBody := body }

theorem file_links_streamed : ∃ w : World, w.store.download id [root] "s" 0 "o" 5 disk (some ⟨file, some report, disk⟩) =
    .streamed file ∧ ∃ i ∈ w.issued, i.token = 0 ∧ i.sid = "s" := by
  have hrun : (((artifacts id [root]).run {} [.decorate 0 (looks 0) "o" "s" [citing "[FILE:temp/a.txt]"]]).map
      fun w => w.store.download id [root] "s" 0 "o" 5 disk (some ⟨file, some report, disk⟩)) =
      some (.streamed file) := by
    decide +kernel
  obtain ⟨w, hw, hstreamed⟩ := Option.map_eq_some_iff.mp hrun
  obtain ⟨i, hi, htoken, -, hsid, -⟩ := (file_links ⟨_, hw⟩).2.1 "s" 0 "o" 5 disk _ file hstreamed
  exact ⟨w, hstreamed, i, hi, htoken, hsid⟩

def session (n : Nat) : SessionId := String.ofList (List.replicate n 'x')

theorem session_injective : Function.Injective session := by
  intro m n h
  have hlength := congrArg (fun s => s.toList.length) h
  simpa [session] using hlength

def entryOf (n : Nat) : Entry := ⟨0, ⟨"o", session n, report, file.id⟩, report, file.id⟩

def Filled (n : Nat) (s : Store) : Prop :=
  s.entries.entries = (List.range n).map (fun i => (i, entryOf i)) ∧ s.drawn = n

theorem Filled.entry {n : Nat} {s : Store} (h : Filled n s) {e : Token × Entry} (he : e ∈ s.entries.entries) :
    e.1 < n ∧ e.2 = entryOf e.1 := by
  rw [h.1] at he
  obtain ⟨i, hi, rfl⟩ := List.mem_map.mp he
  exact ⟨List.mem_range.mp hi, rfl⟩

theorem Filled.size {n : Nat} {s : Store} (h : Filled n s) : s.entries.size = n := by
  rw [Dict.size, h.1, List.length_map, List.length_range]

theorem Filled.young {n : Nat} {s : Store} (h : Filled n s) : ∀ e ∈ s.entries.entries, (0 : ℚ) - e.2.created < ttl := by
  intro e he
  rw [(h.entry he).2]
  change (0 : ℚ) - 0 < 1800
  norm_num

theorem Filled.index {n : Nat} {s : Store} (h : Filled n s) (hsound : s.Sound) {key : Key}
    (hkey : ∀ i < n, (entryOf i).key ≠ key) : s.index.get? key = none := by
  rw [Option.eq_none_iff_forall_not_mem]
  intro t hindex
  obtain ⟨e, hget, heq⟩ := hsound.backed key t hindex
  obtain ⟨hlt, hentry⟩ := h.entry (Dict.mem_entries_iff.mpr hget)
  refine hkey t hlt ?_
  rw [← heq, ← hentry]

theorem Filled.prune {n : Nat} {s : Store} (h : Filled n s) (hn : n < limit) : s.prune 0 = s :=
  Store.prune_of_room h.young (h.size.trans_lt hn)

theorem decorate_citing {body : String} {raws : List String} (hraws : references body = raws) (sid : SessionId)
    (s : Store) :
    (decorate id [root] (looks 0) "o" sid 0 s [citing body]).1 =
      (raws.foldl (cite id [root] (looks 0) "o" sid (citing body)) ({ store := s.prune 0 }, [])).1 := by
  subst hraws
  rfl

theorem filled (n : Nat) (hn : n < limit) : ∃ w, (artifacts id [root]).Reachable w ∧ Filled n w.store := by
  induction n with
  | zero => exact ⟨{}, Machine.reachable_start _, rfl, rfl⟩
  | succ n ih =>
      obtain ⟨w, hw, hfilled⟩ := ih (Nat.lt_of_succ_lt hn)
      refine ⟨_, hw.next (a := .decorate 0 (looks 0) "o" (session n) [citing "[FILE:temp/a.txt]"]) rfl, ?_⟩
      have hsound := (good_of_reachable hw).sound
      have hprune := hfilled.prune (Nat.lt_of_succ_lt hn)
      have hindex : w.store.index.get? ⟨"o", session n, report, file.id⟩ = none := by
        refine hfilled.index hsound fun i hi hkey => ?_
        exact Nat.ne_of_lt hi (session_injective (Key.mk.inj hkey).2.1)
      have hraws : references "[FILE:temp/a.txt]" = ["temp/a.txt"] := by decide
      have hresolve : resolve id [root] disk "temp/a.txt" = some (report, file) := by decide +kernel
      obtain ⟨link, hcite⟩ := @cite_of_resolve id [root] (looks 0) "o" (session n) (citing "[FILE:temp/a.txt]")
        ({ store := w.store }, []) "temp/a.txt" report file (by simp) hresolve
      have hadded : (decorate id [root] (looks 0) "o" (session n) 0 w.store [citing "[FILE:temp/a.txt]"]).1.store =
          w.store.add 0 ⟨"o", session n, report, file.id⟩ := by
        rw [decorate_citing hraws, hprune, List.foldl_cons, List.foldl_nil, hcite]
        dsimp only
        rw [Store.issue_of_none hindex]
        exact congrArg (fun s => s.add 0 ⟨"o", session n, report, file.id⟩) hprune
      have hfresh : w.store.drawn ∉ w.store.entries.keys := fun hin => Nat.lt_irrefl _ (hsound.drawn _ hin)
      change Filled (n + 1) (decorate id [root] (looks 0) "o" (session n) 0 w.store [citing "[FILE:temp/a.txt]"]).1.store
      rw [hadded]
      refine ⟨?_, congrArg (· + 1) hfilled.2⟩
      change (w.store.entries.set w.store.drawn (⟨0, ⟨"o", session n, report, file.id⟩, report, file.id⟩ : Entry)).entries = _
      rw [Dict.entries_set_of_not_mem _ hfresh, hfilled.1, hfilled.2, List.range_succ, List.map_append]
      rfl

theorem Filled.oldest {s : Store} (h : Filled 1023 s) (hsound : s.Sound) (key : Key) : 0 ∉ (s.add 0 key).newest 0 := by
  have hfresh : s.drawn ∉ s.entries.keys := fun hin => Nat.lt_irrefl _ (hsound.drawn _ hin)
  have hentries : (s.add 0 key).entries.entries =
      (0, entryOf 0) :: ((List.range 1022).map (fun i => (i + 1, entryOf (i + 1))) ++ [(1023, ⟨0, key, key.path, key.id⟩)]) := by
    rw [Store.add, Dict.entries_set_of_not_mem _ hfresh, h.1, h.2, List.range_succ_eq_map, List.map_cons, List.map_map]
    rfl
  have hlive : (s.add 0 key).live 0 = (s.add 0 key).entries.entries := by
    refine List.filter_eq_self.mpr fun e he => decide_eq_true ?_
    have hcreated : e.2.created = 0 := by
      rw [hentries] at he
      rcases List.mem_cons.mp he with rfl | he
      · rfl
      · rcases List.mem_append.mp he with he | he
        · obtain ⟨i, -, rfl⟩ := List.mem_map.mp he
          rfl
        · rw [List.mem_singleton.mp he]
    rw [hcreated, ttl]
    norm_num
  have hlength : (s.add 0 key).entries.entries.length + 1 - limit = 1 := by
    rw [hentries, limit]
    simp
  rw [Store.newest, hlive, hlength, hentries, List.drop_succ_cons, List.drop_zero]
  simp

-- A file whose entry is the oldest of a store that is full but for one, and two files that are new to it.
def crowded : String := "[FILE:temp/a.txt][FILE:temp/b.txt][FILE:temp/c.txt]"

theorem link_lost : ∃ w, (artifacts id [root]).Reachable w ∧
    ¬∀ message ∈ (decorate id [root] (looks 0) "o" (session 0) 0 w.store [citing crowded]).2, ∀ links,
      message.artifacts = some links → ∀ link ∈ links, ∃ e,
        (decorate id [root] (looks 0) "o" (session 0) 0 w.store [citing crowded]).1.store.entries.get? link.url.2 =
            some e ∧ e.key.owner = "o" ∧ e.key.sid = session 0 := by
  obtain ⟨w, hw, hfilled⟩ := filled 1023 (by decide)
  refine ⟨w, hw, fun hfound => ?_⟩
  have hgood := good_of_reachable hw
  have hsound := hgood.sound
  have hprune := hfilled.prune (by decide)
  have hroomy := ((hgood.work 0).links_found rfl [citing crowded]).mp hfound
  have hraws : references crowded = ["temp/a.txt", "temp/b.txt", "temp/c.txt"] := by decide
  have hcites := hroomy.1 rfl rfl
  change RoomyCites id [root] (looks 0) "o" (session 0) (citing crowded) ({ store := w.store.prune 0 }, [])
    (references crowded) at hcites
  rw [hprune, hraws] at hcites
  obtain ⟨-, -, hroom, -⟩ := hcites
  -- the first citation finds the oldest entry
  have hreport : resolve id [root] disk "temp/a.txt" = some (report, file) := by decide +kernel
  have hoption : w.store.entries.get? 0 = some (entryOf 0) := by
    rw [← Dict.mem_entries_iff, hfilled.1]
    exact List.mem_map.mpr ⟨0, List.mem_range.mpr (by decide), rfl⟩
  have hindex : w.store.index.get? ⟨"o", session 0, report, file.id⟩ = some 0 := hsound.indexed 0 _ hoption
  obtain ⟨link, hcite⟩ := @cite_of_resolve id [root] (looks 0) "o" (session 0) (citing crowded)
    ({ store := w.store }, []) "temp/a.txt" report file (by simp) hreport
  dsimp only at hcite
  rw [Store.issue_of_index hsound hindex] at hcite
  rw [hcite] at hroom
  -- the second one makes the store full
  have hsecond : resolve id [root] disk "temp/b.txt" = some (⟨"c:\\", ["hub", "temp", "b.txt"]⟩, file) := by decide +kernel
  have hnone : w.store.index.get? ⟨"o", session 0, ⟨"c:\\", ["hub", "temp", "b.txt"]⟩, file.id⟩ = none := by
    refine hfilled.index hsound fun i _ hkey => ?_
    have hpath := (Key.mk.inj hkey).2.2.1
    exact absurd hpath (by decide)
  obtain ⟨link', hcite'⟩ := @cite_of_resolve id [root] (looks 0) "o" (session 0) (citing crowded)
    ({ store := w.store, turn := 1,
       issued := [⟨0, 0, "o", session 0, citing crowded, "temp/a.txt", disk, link⟩] }, [link]) "temp/b.txt"
    ⟨"c:\\", ["hub", "temp", "b.txt"]⟩ file (by simp) hsecond
  dsimp only at hcite'
  rw [Store.issue_of_none hnone] at hcite'
  change Room _ _ _ _ _ (cite id [root] (looks 0) "o" (session 0) (citing crowded)
    ({ store := w.store, turn := 1,
       issued := [⟨0, 0, "o", session 0, citing crowded, "temp/a.txt", disk, link⟩] }, [link]) "temp/b.txt") _ at hroom
  have hsame : w.store.prune (looks 0 1).pruned = w.store := hprune
  rw [hcite', hsame] at hroom
  -- and the third one drops the oldest entry
  have hthird : resolve id [root] disk "temp/c.txt" = some (⟨"c:\\", ["hub", "temp", "c.txt"]⟩, file) := by decide +kernel
  have hnone' : (w.store.add 0 ⟨"o", session 0, ⟨"c:\\", ["hub", "temp", "b.txt"]⟩, file.id⟩).index.get?
      ⟨"o", session 0, ⟨"c:\\", ["hub", "temp", "c.txt"]⟩, file.id⟩ = none := by
    have hpath : (⟨"o", session 0, ⟨"c:\\", ["hub", "temp", "c.txt"]⟩, file.id⟩ : Key) ≠
        ⟨"o", session 0, ⟨"c:\\", ["hub", "temp", "b.txt"]⟩, file.id⟩ := fun hkey =>
      absurd (Key.mk.inj hkey).2.2.1 (by decide)
    rw [Store.add, Dict.get?_set_ne _ _ hpath]
    refine hfilled.index hsound fun i _ hkey => ?_
    exact absurd (Key.mk.inj hkey).2.2.1 (by decide)
  exact hfilled.oldest hsound _ (hroom (by simp) _ file hthird hnone' _ (List.mem_append_left _ List.mem_cons_self))

end Runs

end GaHub.Remote.Artifacts
