import GaHub.Lib.Lists
import GaHub.Remote.Creations

namespace GaHub.Remote

open Lib

def PerformStage.holds : PerformStage → Bool
  | .waiting | .returned _ => false
  | _ => true

def CreatePost.Rejected (post : CreatePost) : Prop := ∃ status, post.outcome = some (.rejected status)

namespace Creates

variable {s : Creates} {k k' : Clock}

-- The entry of the key is younger than a cookie can be, or is in the cache with its lock taken.
def prompt (s : Creates) (now : ℚ) (key : CreateKey) : Bool :=
  s.entries.all fun entry =>
    entry.key ≠ key || decide (now - entry.time < lifetime) || entry.owner.isSome && decide (key ∈ s.creations.keys)

theorem prompt_iff {now : ℚ} {key : CreateKey} :
    s.prompt now key = true ↔ ∀ entry ∈ s.entries, entry.key = key →
      now - entry.time < lifetime ∨ entry.owner.isSome = true ∧ key ∈ s.creations.keys := by
  simp only [prompt, List.all_eq_true, Bool.or_eq_true, Bool.and_eq_true, decide_eq_true_eq, ne_eq, or_assoc]
  refine forall₂_congr fun entry _ => ?_
  exact imp_iff_not_or.symm

theorem modifyEntry_id (s : Creates) (e : Nat) : s.modifyEntry e (fun entry => entry) = s := by
  change { s with entries := s.entries.modify e id } = s
  rw [List.modify_id]

theorem modifyEntry_modifyEntry (s : Creates) (e : Nat) (f g : CreateEntry → CreateEntry) :
    (s.modifyEntry e f).modifyEntry e g = s.modifyEntry e fun entry => g (f entry) := by
  simp [modifyEntry, List.modify_modify_eq, Function.comp_def]

-- A key has one entry, and only the holder of an entry's lock posts for it; what was posted before was rejected.
structure Kept (k : Clock) (s : Creates) : Prop where
  once : (s.entries.map CreateEntry.key).Nodup
  held : ∀ (e : Nat) (entry : CreateEntry), s.entries[e]? = some entry →
    s.creations.get? entry.key = some e ∨ lifetime ≤ k.now - entry.time
  stored : ∀ (key : CreateKey) (e : Nat), s.creations.get? key = some e →
    ∃ entry, s.entries[e]? = some entry ∧ entry.key = key
  owned : ∀ (p : Nat) (x : Perform), s.performs[p]? = some x → x.stage.holds = true →
    ∃ entry, s.entries[x.entry]? = some entry ∧ entry.owner = some p
  posting : ∀ (p : Nat) (x : Perform) (base : String) (project : Option Project) (k : Nat), s.performs[p]? = some x →
    x.stage = .posting base project k →
    ∃ entry post, s.entries[x.entry]? = some entry ∧ entry.attempted = true ∧ s.posts[k]? = some post ∧
      post.entry = x.entry ∧ post.outcome = none
  known : ∀ post ∈ s.posts, post.entry < s.entries.length
  clean : ∀ (e : Nat) (entry : CreateEntry), s.entries[e]? = some entry → entry.attempted = false →
    ∀ post ∈ s.posts, post.entry = e → post.Rejected
  ordered : ∀ (a b : Nat) (post post' : CreatePost), a < b → s.posts[a]? = some post → s.posts[b]? = some post' →
    post.entry = post'.entry → post.Rejected
  dated : ∀ r ∈ s.requests, k.Issued r.cookie k.now
  issued : ∀ entry ∈ s.entries, k.Issued entry.key.1 entry.time

namespace Kept

theorem start : Kept k {} := by
  constructor <;> simp

theorem before (h : Kept k s) (hk : k.Before k') : Kept k' s :=
  { h with
    held := fun e entry he => by
      rcases h.held e entry he with hget | hold
      · exact Or.inl hget
      · have hnow := hk.now
        exact Or.inr (by linarith)
    dated := fun r hr => (hk.issued (h.dated r hr)).later hk.now
    issued := fun entry hentry => hk.issued (h.issued entry hentry) }

theorem add_request (h : Kept k s) {r : CreateRequest} (hr : k.Issued r.cookie k.now) :
    Kept k { s with requests := s.requests ++ [r] } :=
  { h with
    dated := fun r' hr' => by
      rcases List.mem_append.mp hr' with hold | hnew
      · exact h.dated r' hold
      · rw [List.mem_singleton.mp hnew]
        exact hr }

theorem refuse (h : Kept k s) (i status : Nat) (text : String) : Kept k (s.refuse i status text) :=
  { h with
    dated := fun r hr => by
      rcases mem_modify_cases hr with ⟨r₀, hr₀, rfl⟩ | hr
      · exact h.dated r₀ (List.mem_of_getElem? hr₀)
      · exact h.dated r hr }

theorem prune (h : Kept k s) : Kept k (s.prune k.now) where
  once := h.once
  held e entry he := by
    rcases h.held e entry he with hget | hold
    · rcases lt_or_ge (k.now - entry.time) lifetime with hyoung | hold
      · refine Or.inl ?_
        change s.entries[e]? = some entry at he
        rw [Creates.prune, Dict.get?_filter, hget]
        simp [fresh, he, hyoung]
      · exact Or.inr hold
    · exact Or.inr hold
  stored key e hget := by
    rw [Creates.prune, Dict.get?_filter] at hget
    exact h.stored key e (Option.filter_eq_some_iff.mp hget).1
  owned := h.owned
  posting := h.posting
  known := h.known
  clean := h.clean
  ordered := h.ordered
  dated := h.dated
  issued := h.issued

theorem held_of_prompt (h : Kept k s) {e : Nat} {entry : CreateEntry} (he : s.entries[e]? = some entry)
    (hprompt : s.prompt k.now entry.key = true) : (s.prune k.now).creations.get? entry.key = some e := by
  rcases prompt_iff.mp hprompt entry (List.mem_of_getElem? he) rfl with hyoung | ⟨howner, hkey⟩
  · rcases h.prune.held e entry he with hget | hold
    · exact hget
    · exact absurd hyoung (not_lt.mpr hold)
  · obtain ⟨e', hget⟩ := Dict.mem_keys_iff.mp hkey
    obtain ⟨entry', he', heq⟩ := h.stored _ _ hget
    cases place_unique h.once he' he heq
    rw [Creates.prune, Dict.get?_filter, hget]
    simp [locked, he, howner]

theorem add (h : Kept k s) {key : CreateKey} {projectId : Option String}
    (hkey : k.Issued key.1 k.now) (hnew : ∀ entry ∈ s.entries, entry.key ≠ key) : Kept k (s.add k.now key projectId) where
  once := by
    simp only [Creates.add, List.map_append, List.map_cons, List.map_nil]
    refine h.once.append (List.nodup_singleton _) (List.disjoint_singleton.mpr fun hin => ?_)
    obtain ⟨entry, hentry, heq⟩ := List.mem_map.mp hin
    exact hnew entry hentry heq
  held e entry he := by
    rcases getElem?_concat he with he | ⟨rfl, rfl⟩
    · rw [Creates.add, Dict.get?_set_ne _ _ (hnew entry (List.mem_of_getElem? he))]
      exact h.held e entry he
    · exact Or.inl (Dict.get?_set_self _ _ _)
  stored key' e hget := by
    rw [Creates.add, Dict.get?_set] at hget
    split at hget
    · rename_i heq
      cases hget
      exact ⟨_, List.getElem?_concat_length, heq.symm⟩
    · obtain ⟨entry, he, heq⟩ := h.stored key' e hget
      exact ⟨entry, getElem?_grow he _, heq⟩
  owned p x hp hholds := by
    obtain ⟨entry, he, howner⟩ := h.owned p x hp hholds
    exact ⟨entry, getElem?_grow he _, howner⟩
  posting p x base project k hp hstage := by
    obtain ⟨entry, post, he, hrest⟩ := h.posting p x base project k hp hstage
    exact ⟨entry, post, getElem?_grow he _, hrest⟩
  known post hpost := by
    have hlt := h.known post hpost
    simp only [Creates.add, List.length_append, List.length_singleton]
    omega
  clean e entry he hfree post hpost heq := by
    rcases getElem?_concat he with he | ⟨rfl, rfl⟩
    · exact h.clean e entry he hfree post hpost heq
    · have hlt := h.known post hpost
      omega
  ordered := h.ordered
  dated := h.dated
  issued entry hentry := by
    rcases List.mem_append.mp hentry with hold | hnew
    · exact h.issued entry hold
    · rw [List.mem_singleton.mp hnew]
      exact hkey

theorem perform (h : Kept k s) (i e : Nat) : Kept k (s.perform i e) where
  once := h.once
  held := h.held
  stored := h.stored
  owned p x hp hholds := by
    rcases getElem?_concat hp with hp | ⟨rfl, rfl⟩
    · exact h.owned p x hp hholds
    · cases hholds
  posting p x base project k hp hstage := by
    rcases getElem?_concat hp with hp | ⟨rfl, rfl⟩
    · exact h.posting p x base project k hp hstage
    · cases hstage
  known := h.known
  clean := h.clean
  ordered := h.ordered
  dated r hr := by
    rcases mem_modify_cases hr with ⟨r₀, hr₀, rfl⟩ | hr
    · exact h.dated r₀ (List.mem_of_getElem? hr₀)
    · exact h.dated r hr
  issued := h.issued

theorem body (h : Kept k s) {i : Nat} {c : CookieId} {data : Creation} (hc : k.Issued c k.now)
    (hprompt : s.prompt k.now (c, data.requestId) = true) : Kept k (s.body k.now i c data) := by
  unfold Creates.body
  split
  · exact h.refuse i 400 _
  · dsimp only
    split
    · split
      · exact h.prune.refuse i 409 _
      · exact h.prune.perform i _
    · rename_i hnone
      split
      · exact h.prune.refuse i 429 _
      · refine (h.prune.add hc fun entry hentry heq => ?_).perform i _
        obtain ⟨e, he⟩ := List.getElem?_of_mem hentry
        have hget := h.held_of_prompt he (heq ▸ hprompt)
        rw [heq, hnone] at hget
        cases hget

section Steps

variable {p : Nat} {x : Perform} {entry : CreateEntry} {f : CreateEntry → CreateEntry} {stage : PerformStage}

theorem holder (h : Kept k s) (hp : s.performs[p]? = some x) (he : s.entries[x.entry]? = some entry)
    (hholds : x.stage.holds = true) : entry.owner = some p := by
  obtain ⟨entry', he', howner⟩ := h.owned p x hp hholds
  rw [he] at he'
  cases he'
  exact howner

theorem elsewhere (h : Kept k s) (he : s.entries[x.entry]? = some entry) (hfree : ∀ q, entry.owner = some q → q = p)
    {q : Nat} {y : Perform} (hq : s.performs[q]? = some y) (hy : y.stage.holds = true) (hne : q ≠ p) :
    x.entry ≠ y.entry := by
  intro heq
  exact hne (hfree q (h.holder hq (heq ▸ he) hy))

-- A step of a perform that has the lock, takes it or gives it back, with what it does to the posts of its entry.
theorem step (h : Kept k s) (hp : s.performs[p]? = some x) (he : s.entries[x.entry]? = some entry)
    (hfree : ∀ q, entry.owner = some q → q = p) (hkey : ∀ e, (f e).key = e.key) (htime : ∀ e, (f e).time = e.time)
    (hholds : stage.holds = true → (f entry).owner = some p) {posts : List CreatePost}
    (hposting : ∀ base project k, stage = .posting base project k →
      (f entry).attempted = true ∧ ∃ post, posts[k]? = some post ∧ post.entry = x.entry ∧ post.outcome = none)
    (hsame : ∀ (k : Nat) (post : CreatePost), s.posts[k]? = some post → post.entry ≠ x.entry → posts[k]? = some post)
    (hback : ∀ (k : Nat) (post : CreatePost), posts[k]? = some post → post.entry = x.entry ∨ s.posts[k]? = some post)
    (hclean : (f entry).attempted = false → ∀ post ∈ posts, post.entry = x.entry → post.Rejected)
    (hordered : ∀ (a b : Nat) (post post' : CreatePost), a < b → posts[a]? = some post → posts[b]? = some post' →
      post.entry = x.entry → post'.entry = x.entry → post.Rejected) :
    Kept k { (s.modifyEntry x.entry f).setPerform p stage with posts } where
  once := by
    simp only [modifyEntry, setPerform]
    rw [map_modify_eq hkey]
    exact h.once
  held e entry' he' := by
    rcases getElem?_modify_cases he' with ⟨rfl, entry₀, he₀, rfl⟩ | ⟨-, he'⟩
    · rw [hkey, htime]
      exact h.held _ entry₀ he₀
    · exact h.held e entry' he'
  stored key e hget := by
    obtain ⟨entry', he', heq⟩ := h.stored key e hget
    by_cases hx : x.entry = e
    · subst hx
      refine ⟨f entry', ?_, (hkey entry').trans heq⟩
      simp [modifyEntry, setPerform, he']
    · refine ⟨entry', ?_, heq⟩
      simp [modifyEntry, setPerform, hx, he']
  owned q y hq hy := by
    rcases getElem?_modify_cases hq with ⟨rfl, x₀, hx₀, rfl⟩ | ⟨hne, hq⟩
    · change s.performs[q]? = some x₀ at hx₀
      rw [hp] at hx₀
      cases hx₀
      exact ⟨f entry, by simp [modifyEntry, setPerform, he], hholds hy⟩
    · obtain ⟨entry', he', howner⟩ := h.owned q y hq hy
      refine ⟨entry', ?_, howner⟩
      simpa [modifyEntry, setPerform, h.elsewhere he hfree hq hy hne] using he'
  posting q y base project k hq hy := by
    rcases getElem?_modify_cases hq with ⟨rfl, x₀, hx₀, rfl⟩ | ⟨hne, hq⟩
    · change s.performs[q]? = some x₀ at hx₀
      rw [hp] at hx₀
      cases hx₀
      obtain ⟨hattempted, post, hpost⟩ := hposting base project k hy
      exact ⟨f entry, post, by simp [modifyEntry, setPerform, he], hattempted, hpost⟩
    · obtain ⟨entry', post, he', hattempted, hk, hentry, hopen⟩ := h.posting q y base project k hq hy
      have hother := h.elsewhere he hfree hq (by simp [hy, PerformStage.holds]) hne
      refine ⟨entry', post, ?_, hattempted, ?_, hentry, hopen⟩
      · simpa [modifyEntry, setPerform, hother] using he'
      · exact hsame k post hk (hentry ▸ Ne.symm hother)
  known post hpost := by
    obtain ⟨k, hk⟩ := List.getElem?_of_mem hpost
    simp only [modifyEntry, setPerform, List.length_modify]
    rcases hback k post hk with hentry | hold
    · rw [hentry]
      exact (List.getElem?_eq_some_iff.mp he).1
    · exact h.known post (List.mem_of_getElem? hold)
  clean e entry' he' hfree' post hpost hentry := by
    rcases getElem?_modify_cases he' with ⟨rfl, entry₀, he₀, rfl⟩ | ⟨hne, he'⟩
    · rw [he] at he₀
      cases he₀
      exact hclean hfree' post hpost hentry
    · obtain ⟨k, hk⟩ := List.getElem?_of_mem hpost
      rcases hback k post hk with heq | hold
      · exact absurd (hentry.symm.trans heq) hne
      · exact h.clean e entry' he' hfree' post (List.mem_of_getElem? hold) hentry
  ordered a b post post' hab ha hb heq := by
    rcases hback a post ha with hentry | ha'
    · exact hordered a b post post' hab ha hb hentry (heq ▸ hentry)
    · rcases hback b post' hb with hentry | hb'
      · exact hordered a b post post' hab ha hb (heq.trans hentry) hentry
      · exact h.ordered a b post post' hab ha' hb' heq
  dated := h.dated
  issued entry' hentry := by
    rcases mem_modify_cases hentry with ⟨entry₀, he₀, rfl⟩ | hentry
    · rw [hkey, htime]
      exact h.issued entry₀ (List.mem_of_getElem? he₀)
    · exact h.issued entry' hentry

theorem advance (h : Kept k s) (hp : s.performs[p]? = some x) (he : s.entries[x.entry]? = some entry)
    (hfree : ∀ q, entry.owner = some q → q = p) (hkey : ∀ e, (f e).key = e.key) (htime : ∀ e, (f e).time = e.time)
    (hattempted : (f entry).attempted = entry.attempted) (hholds : stage.holds = true → (f entry).owner = some p)
    (hposting : ∀ base project k, stage ≠ .posting base project k) :
    Kept k ((s.modifyEntry x.entry f).setPerform p stage) := by
  refine h.step hp he hfree hkey htime hholds (fun base project k hstage => absurd hstage (hposting base project k))
    (fun k post hk _ => hk) (fun k post hk => Or.inr hk) (fun hfree' post hpost hentry => ?_)
    (fun a b post post' hab ha hb hentry hentry' => h.ordered a b post post' hab ha hb (hentry.trans hentry'.symm))
  rw [hattempted] at hfree'
  exact h.clean _ entry he hfree' post hpost hentry

theorem finish_modify (h : Kept k s) (hp : s.performs[p]? = some x) (he : s.entries[x.entry]? = some entry)
    (hfree : ∀ q, entry.owner = some q → q = p) (hkey : ∀ e, (f e).key = e.key) (htime : ∀ e, (f e).time = e.time)
    (hattempted : (f entry).attempted = entry.attempted) (response : Response) :
    Kept k ((s.modifyEntry x.entry f).finish p x.entry response) := by
  rw [finish, modifyEntry_modifyEntry]
  exact h.advance hp he hfree hkey htime hattempted (by simp [PerformStage.holds]) (by simp)

theorem finish (h : Kept k s) (hp : s.performs[p]? = some x) (he : s.entries[x.entry]? = some entry)
    (howner : entry.owner = some p) (response : Response) : Kept k (s.finish p x.entry response) := by
  have hthis := h.finish_modify hp he (fun q hq => Option.some.inj (hq.symm.trans howner)) (fun _ => rfl) (fun _ => rfl)
    rfl response
  rwa [modifyEntry_id] at hthis

theorem setPerform (h : Kept k s) (hp : s.performs[p]? = some x) (he : s.entries[x.entry]? = some entry)
    (howner : entry.owner = some p) (hposting : ∀ base project k, stage ≠ .posting base project k) :
    Kept k (s.setPerform p stage) := by
  have hthis : Kept k ((s.modifyEntry x.entry fun entry => entry).setPerform p stage) :=
    h.advance hp he (fun q hq => Option.some.inj (hq.symm.trans howner)) (fun _ => rfl) (fun _ => rfl) rfl
      (fun _ => howner) hposting
  rwa [modifyEntry_id] at hthis

theorem bind_modify (h : Kept k s) (hp : s.performs[p]? = some x) (he : s.entries[x.entry]? = some entry)
    (howner : entry.owner = some p) (hkey : ∀ e, (f e).key = e.key) (htime : ∀ e, (f e).time = e.time)
    (hattempted : (f entry).attempted = entry.attempted) (hsame : (f entry).owner = entry.owner) (session : SessionId)
    (project : Option Project) : Kept k ((s.modifyEntry x.entry f).bind p x.entry session project) := by
  have hfree : ∀ q, entry.owner = some q → q = p := fun q hq => Option.some.inj (hq.symm.trans howner)
  cases project with
  | none =>
      rw [Creates.bind, modifyEntry_modifyEntry]
      exact h.finish_modify (f := fun entry => { f entry with done := true }) hp he hfree hkey htime hattempted _
  | some project =>
      exact h.advance hp he hfree hkey htime hattempted (fun _ => hsame.trans howner) (by simp)

theorem create (h : Kept k s) (hp : s.performs[p]? = some x) (he : s.entries[x.entry]? = some entry)
    (howner : entry.owner = some p) (base : String) (project : Option Project) :
    Kept k (s.create p x.entry entry base project) := by
  unfold Creates.create
  split
  · rename_i session _
    have hthis := h.bind_modify (f := fun entry => entry) hp he howner (fun _ => rfl) (fun _ => rfl) rfl rfl session project
    rwa [modifyEntry_id] at hthis
  · split
    · exact h.finish hp he howner _
    · rename_i hattempted
      have hclean := h.clean _ entry he (Bool.eq_false_of_not_eq_true hattempted)
      refine h.step (f := fun entry => { entry with attempted := true }) hp he
        (fun q hq => Option.some.inj (hq.symm.trans howner)) (fun _ => rfl) (fun _ => rfl) (fun _ => howner) ?_
        (fun k post hk _ => getElem?_grow hk _) ?_ (by simp) ?_
      · intro base' project' k hstage
        cases hstage
        exact ⟨rfl, _, List.getElem?_concat_length, rfl, rfl⟩
      · intro k post hk
        rcases getElem?_concat hk with hk | ⟨-, rfl⟩
        · exact Or.inr hk
        · exact Or.inl rfl
      · intro a b post post' hab ha hb hentry _
        rcases getElem?_concat ha with ha | ⟨rfl, -⟩
        · exact hclean post (List.mem_of_getElem? ha) hentry
        · have hlt := (List.getElem?_eq_some_iff.mp hb).1
          rw [List.length_append, List.length_singleton] at hlt
          omega

-- The answer to the POST of a perform: no other one of its entry comes after it, and those before it were rejected.
theorem answer (h : Kept k s) (hp : s.performs[p]? = some x) (he : s.entries[x.entry]? = some entry) {base : String}
    {project : Option Project} {n : Nat} (hstage : x.stage = .posting base project n)
    (hkey : ∀ e, (f e).key = e.key) (htime : ∀ e, (f e).time = e.time) (outcome : PostOutcome)
    (hclean : (f entry).attempted = entry.attempted ∨ ∃ status, outcome = .rejected status)
    (hholds : stage.holds = true → (f entry).owner = some p)
    (hposting : ∀ base project k, stage ≠ .posting base project k) :
    Kept k (((s.modifyEntry x.entry f).setPerform p stage).setOutcome n outcome) := by
  obtain ⟨entry₀, post₀, he₀, hattempted, hk, hentry₀, hopen⟩ := h.posting p x base project n hp hstage
  rw [he] at he₀
  cases he₀
  have howner := h.holder hp he (by simp [hstage, PerformStage.holds])
  have hpending : ¬post₀.Rejected := by
    rintro ⟨status, hstatus⟩
    rw [hopen] at hstatus
    cases hstatus
  have hbefore : ∀ (a : Nat) (post : CreatePost), s.posts[a]? = some post → post.entry = x.entry → a ≠ n →
      a < n ∧ post.Rejected := by
    intro a post ha hentry hne
    rcases Nat.lt_or_gt_of_ne hne with hlt | hgt
    · exact ⟨hlt, h.ordered a n post post₀ hlt ha hk (hentry.trans hentry₀.symm)⟩
    · exact absurd (h.ordered n a post₀ post hgt hk ha (hentry₀.trans hentry.symm)) hpending
  refine h.step hp he (fun q hq => Option.some.inj (hq.symm.trans howner)) hkey htime hholds
    (fun base project k hstage => absurd hstage (hposting base project k)) ?_ ?_ ?_ ?_
  · intro i post hi hother
    have hne : n ≠ i := by
      rintro rfl
      rw [hk] at hi
      cases hi
      exact hother hentry₀
    simpa [modifyEntry, Creates.setPerform, hne] using hi
  · intro i post hi
    rcases getElem?_modify_cases hi with ⟨rfl, post₁, hpost₁, rfl⟩ | ⟨-, hi⟩
    · cases hk.symm.trans hpost₁
      exact Or.inl hentry₀
    · exact Or.inr hi
  · intro hfalse post hpost hentry
    rcases hclean with hsame | ⟨status, rfl⟩
    · rw [hsame, hattempted] at hfalse
      cases hfalse
    · obtain ⟨i, hi⟩ := List.getElem?_of_mem hpost
      rcases getElem?_modify_cases hi with ⟨rfl, post₁, -, rfl⟩ | ⟨hne, hi⟩
      · exact ⟨status, rfl⟩
      · exact (hbefore i post hi hentry hne).2
  · intro a b post post' hab ha hb hentry hentry'
    rcases getElem?_modify_cases ha with ⟨rfl, -⟩ | ⟨hne, ha⟩
    · rcases getElem?_modify_cases hb with ⟨rfl, -⟩ | ⟨hne, hb⟩
      · omega
      · have hlt := (hbefore b post' hb hentry' hne).1
        omega
    · exact (hbefore a post ha hentry hne).2

theorem posted (h : Kept k s) (hp : s.performs[p]? = some x) (he : s.entries[x.entry]? = some entry) {base : String}
    {project : Option Project} {n : Nat} (hstage : x.stage = .posting base project n) (outcome : PostOutcome) :
    Kept k (s.posted p x.entry base project n outcome) := by
  have howner := h.holder hp he (by simp [hstage, PerformStage.holds])
  unfold Creates.posted
  cases outcome with
  | created =>
      have hthis : Kept k (((s.modifyEntry x.entry fun entry => entry).setPerform p (.decoding base project)).setOutcome n
          .created) :=
        h.answer hp he hstage (fun _ => rfl) (fun _ => rfl) .created (Or.inl rfl) (fun _ => howner) (by simp)
      rwa [modifyEntry_id] at hthis
  | rejected status =>
      dsimp only
      rw [Creates.finish, modifyEntry_modifyEntry]
      exact h.answer (f := fun entry => { entry with attempted := false, owner := none }) hp he hstage (fun _ => rfl)
        (fun _ => rfl) (.rejected status) (Or.inr ⟨status, rfl⟩) (by simp [PerformStage.holds]) (by simp)
  | unknown =>
      exact h.answer (f := fun entry => { entry with owner := none }) hp he hstage (fun _ => rfl) (fun _ => rfl) .unknown
        (Or.inl rfl) (by simp [PerformStage.holds]) (by simp)

theorem bound (h : Kept k s) (hp : s.performs[p]? = some x) (he : s.entries[x.entry]? = some entry)
    (howner : entry.owner = some p) (session : SessionId) (answer : Option (Nat × Option SessionId)) :
    Kept k (s.bound p x.entry session answer) := by
  unfold Creates.bound
  split
  · exact h.finish hp he howner _
  · split
    · exact h.finish hp he howner _
    · split
      · exact h.finish hp he howner _
      · rename_i session'
        exact h.finish_modify (f := fun entry => { entry with session := some session', done := true }) hp he
          (fun q hq => Option.some.inj (hq.symm.trans howner)) (fun _ => rfl) (fun _ => rfl) rfl _

theorem stepPerform (h : Kept k s) (hp : s.performs[p]? = some x) (he : s.entries[x.entry]? = some entry)
    {a : CreateAction} {t : Creates} (ht : s.stepPerform p x entry a = some t) : Kept k t := by
  cases a with
  | post | body => cases ht
  | acquire _ =>
      simp only [Creates.stepPerform] at ht
      split at ht
      · rename_i howner
        have hfree : ∀ q, entry.owner = some q → q = p := by simp [howner]
        split at ht
        · cases ht
          exact h.finish_modify (f := fun entry => { entry with owner := some p }) hp he hfree (fun _ => rfl)
            (fun _ => rfl) rfl _
        · cases ht
          exact h.advance (f := fun entry => { entry with owner := some p }) hp he hfree (fun _ => rfl) (fun _ => rfl) rfl
            (fun _ => rfl) (by simp)
      · cases ht
  | located _ base =>
      simp only [Creates.stepPerform] at ht
      split at ht
      · rename_i hstage
        cases ht
        exact h.finish hp he (h.holder hp he (by simp [hstage, PerformStage.holds])) _
      · rename_i base hstage
        have howner := h.holder hp he (by simp [hstage, PerformStage.holds])
        split at ht
        · cases ht
          exact h.setPerform hp he howner (by simp)
        · cases ht
          exact h.create hp he howner base none
      · cases ht
  | listed _ project =>
      simp only [Creates.stepPerform] at ht
      split at ht
      · rename_i hstage
        cases ht
        exact h.finish hp he (h.holder hp he (by simp [hstage, PerformStage.holds])) _
      · rename_i hstage
        cases ht
        exact h.finish hp he (h.holder hp he (by simp [hstage, PerformStage.holds])) _
      · rename_i base project hstage
        cases ht
        exact h.create hp he (h.holder hp he (by simp [hstage, PerformStage.holds])) base (some project)
      · cases ht
  | posted _ outcome =>
      simp only [Creates.stepPerform] at ht
      split at ht
      · rename_i hstage
        cases ht
        exact h.posted hp he hstage outcome
      · cases ht
  | decoded _ session =>
      simp only [Creates.stepPerform] at ht
      split at ht
      · rename_i hstage
        cases ht
        exact h.finish hp he (h.holder hp he (by simp [hstage, PerformStage.holds])) _
      · rename_i session hstage
        cases ht
        exact h.bind_modify (f := fun entry => { entry with session := some session }) hp he
          (h.holder hp he (by simp [hstage, PerformStage.holds])) (fun _ => rfl) (fun _ => rfl) rfl rfl _ _
      · cases ht
  | bound _ answer =>
      simp only [Creates.stepPerform] at ht
      split at ht
      · rename_i hstage
        cases ht
        exact h.bound hp he (h.holder hp he (by simp [hstage, PerformStage.holds])) _ answer
      · cases ht

end Steps

end Kept

-- When the request's body arrives, the entry of its key is young, or kept by its lock.
def timely (s : Creates) (k : Clock) : CreateAction → Bool
  | .body i (some data) => s.requests[i]?.all fun r => s.prompt k.now (r.cookie, data.requestId)
  | _ => true

theorem Kept.next {a : CreateAction} {t : Creates} (h : Kept k s) (hk : k.Sound) (htimely : s.timely k a = true)
    (ht : s.next k a = some t) : Kept k t := by
  cases a with
  | post c =>
      simp only [Creates.next] at ht
      split at ht
      · cases ht
        exact h.add_request (hk.issued ‹_›)
      · cases ht
  | body i data =>
      obtain ⟨r, hi, ht⟩ := Option.bind_eq_some_iff.mp ht
      split at ht
      · cases ht
        exact h.refuse i 400 _
      · cases ht
        exact h.body (h.dated _ (List.mem_of_getElem? hi)) (by simpa [timely, hi] using htimely)
      · cases ht
  | _ p =>
      obtain ⟨x, hp, ht⟩ := Option.bind_eq_some_iff.mp ht
      obtain ⟨entry, he, ht⟩ := Option.bind_eq_some_iff.mp ht
      exact h.stepPerform hp he ht

end Creates

end GaHub.Remote
