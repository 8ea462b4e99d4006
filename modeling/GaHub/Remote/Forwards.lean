import GaHub.Lib.Lists
import GaHub.Remote.Submissions

namespace GaHub.Remote

open Lib

-- What a request that has reached a call, or its answer, has in common with that call.
def Serves (tasks : List ForwardTask) (r : SubmitRequest) : Prop :=
  match r.stage with
  | .waiting sub j => ∃ task, tasks[j]? = some task ∧ task.key = r.key sub ∧ task.content = sub.content
  | .answered sub response =>
      ∃ task ∈ tasks, task.key = r.key sub ∧ task.content = sub.content ∧ task.result = some response
  | _ => True

-- The request came with a cookie, and looked at the cache, after the login.
def SubmitRequest.Dated (k : Clock) (r : SubmitRequest) : Prop :=
  k.Issued r.cookie k.now ∧ ∀ now sub attachments, r.stage = .locating now sub attachments → k.Issued r.cookie now

theorem SubmitRequest.Dated.before {k k' : Clock} {r : SubmitRequest} (h : r.Dated k) (hk : k.Before k') : r.Dated k' :=
  ⟨(hk.issued h.1).later hk.now, fun now sub attachments hstage => hk.issued (h.2 now sub attachments hstage)⟩

theorem SubmitRequest.Dated.move {k : Clock} {r : SubmitRequest} (h : r.Dated k) {stage : SubmitStage}
    (hnow : ∀ now sub attachments, stage = .locating now sub attachments → now = k.now) : Dated k { r with stage } := by
  refine ⟨h.1, fun now sub attachments hstage => ?_⟩
  rw [hnow now sub attachments hstage]
  exact h.1

namespace Submits

variable {δ : Type} {s : Submits δ}

-- The calls made for the key are unanswered, or younger than a cookie can be.
def prompt (s : Submits δ) (now : ℚ) (key : SubmitKey) : Bool :=
  s.tasks.all fun task => task.key ≠ key || task.result.isNone || decide (now - task.time < lifetime)

theorem prompt_iff {now : ℚ} {key : SubmitKey} :
    s.prompt now key = true ↔
      ∀ task ∈ s.tasks, task.key = key → task.result = none ∨ now - task.time < lifetime := by
  simp only [prompt, List.all_eq_true, Bool.or_eq_true, decide_eq_true_eq, Option.isNone_iff_eq_none, ne_eq,
    or_assoc]
  refine forall₂_congr fun task _ => ?_
  exact imp_iff_not_or.symm

section Kept

variable {fingerprint : String × List UploadId → δ} {k k' : Clock}

-- The cache holds the entry of every call until that is answered and old, and nothing else.
structure Kept (fingerprint : String × List UploadId → δ) (k : Clock) (s : Submits δ) : Prop where
  once : (s.tasks.map ForwardTask.key).Nodup
  held : ∀ (j : Nat) (task : ForwardTask), s.tasks[j]? = some task →
    s.submissions.get? task.key = some ⟨task.time, fingerprint task.content, j⟩ ∨
      task.result ≠ none ∧ lifetime ≤ k.now - task.time
  stored : ∀ (key : SubmitKey) (entry : SubmitEntry δ), s.submissions.get? key = some entry →
    ∃ task, s.tasks[entry.task]? = some task ∧ task.key = key ∧ entry.fingerprint = fingerprint task.content ∧
      entry.time = task.time
  served : ∀ r ∈ s.requests, Serves s.tasks r
  dated : ∀ r ∈ s.requests, r.Dated k
  issued : ∀ task ∈ s.tasks, k.Issued task.key.cookie task.time

namespace Kept

theorem start : Kept fingerprint k ({} : Submits δ) where
  once := List.nodup_nil
  held j task hj := by simp at hj
  stored key entry h := by simp at h
  served r hr := by simp at hr
  dated r hr := by simp at hr
  issued task htask := by simp at htask

theorem before (h : Kept fingerprint k s) (hk : k.Before k') : Kept fingerprint k' s where
  once := h.once
  held j task hj := by
    rcases h.held j task hj with hget | ⟨hdone, hold⟩
    · exact Or.inl hget
    · have hnow := hk.now
      exact Or.inr ⟨hdone, by linarith⟩
  stored := h.stored
  served := h.served
  dated r hr := (h.dated r hr).before hk
  issued task htask := hk.issued (h.issued task htask)

theorem held_of_prompt (h : Kept fingerprint k s) {task : ForwardTask} (htask : task ∈ s.tasks)
    (hprompt : s.prompt k.now task.key = true) :
    ∃ entry, s.submissions.get? task.key = some entry ∧ entry.fingerprint = fingerprint task.content := by
  obtain ⟨j, hj⟩ := List.getElem?_of_mem htask
  rcases h.held j task hj with hget | ⟨hdone, hold⟩
  · exact ⟨_, hget, rfl⟩
  · rcases prompt_iff.mp hprompt task htask rfl with hnone | hyoung
    · exact absurd hnone hdone
    · exact absurd hyoung (not_lt.mpr hold)

theorem add_request (h : Kept fingerprint k s) {r : SubmitRequest} (hr : r.stage = .reading)
    (hissued : k.Issued r.cookie k.now) : Kept fingerprint k { s with requests := s.requests ++ [r] } where
  once := h.once
  held := h.held
  stored := h.stored
  served r' hr' := by
    rcases List.mem_append.mp hr' with hold | hnew
    · exact h.served r' hold
    · rw [List.mem_singleton] at hnew
      subst hnew
      simp [Serves, hr]
  dated r' hr' := by
    rcases List.mem_append.mp hr' with hold | hnew
    · exact h.dated r' hold
    · rw [List.mem_singleton] at hnew
      subst hnew
      exact ⟨hissued, by simp [hr]⟩
  issued := h.issued

theorem setStage (h : Kept fingerprint k s) {i : Nat} {stage : SubmitStage}
    (hnow : ∀ now sub attachments, stage = .locating now sub attachments → now = k.now)
    (hserves : ∀ r : SubmitRequest, s.requests[i]? = some r → Serves s.tasks { r with stage }) :
    Kept fingerprint k (s.setStage i stage) where
  once := h.once
  held := h.held
  stored := h.stored
  served r hr := by
    rcases mem_modify_cases hr with ⟨r₀, hr₀, rfl⟩ | hr
    · exact hserves r₀ hr₀
    · exact h.served r hr
  dated r hr := by
    rcases mem_modify_cases hr with ⟨r₀, hr₀, rfl⟩ | hr
    · exact (h.dated r₀ (List.mem_of_getElem? hr₀)).move hnow
    · exact h.dated r hr
  issued := h.issued

theorem setIdle (h : Kept fingerprint k s) {i : Nat} {stage : SubmitStage}
    (hnow : ∀ now sub attachments, stage = .locating now sub attachments → now = k.now)
    (hidle : ∀ r : SubmitRequest, Serves s.tasks { r with stage }) : Kept fingerprint k (s.setStage i stage) :=
  h.setStage hnow fun r _ => hidle r

theorem refuse (h : Kept fingerprint k s) (i status : Nat) (text : String) :
    Kept fingerprint k (s.refuse i status text) :=
  h.setIdle (by simp) fun _ => trivial

theorem prune (h : Kept fingerprint k s) : Kept fingerprint k (s.prune k.now) where
  once := h.once
  held j task hj := by
    rcases h.held j task hj with hget | hold
    · by_cases hkeep : task.result ≠ none ∧ lifetime ≤ k.now - task.time
      · exact Or.inr hkeep
      · refine Or.inl ?_
        simp only [Submits.prune, Dict.get?_filter, hget, Option.filter_eq_some_iff, true_and]
        rw [not_and_or, not_not, not_le] at hkeep
        rw [Bool.or_eq_true, decide_eq_true_eq]
        change s.tasks[j]? = some task at hj
        rcases hkeep with hnone | hyoung
        · exact Or.inl (by simp [taskDone, hj, hnone])
        · exact Or.inr hyoung
    · exact Or.inr hold
  stored key entry hget := by
    simp only [Submits.prune, Dict.get?_filter, Option.filter_eq_some_iff] at hget
    exact h.stored key entry hget.1
  served := h.served
  dated := h.dated
  issued := h.issued

theorem call (h : Kept fingerprint k s) {i : Nat} {r : SubmitRequest} {sub : Submission} (task : ForwardTask)
    (hi : s.requests[i]? = some r) (hkey : task.key = r.key sub) (hcontent : task.content = sub.content)
    (hissued : k.Issued task.key.cookie task.time) (hnew : ∀ task' ∈ s.tasks, task'.key ≠ task.key) :
    Kept fingerprint k
      { s.setStage i (.waiting sub s.tasks.length) with
        tasks := s.tasks ++ [task]
        submissions := s.submissions.set task.key ⟨task.time, fingerprint task.content, s.tasks.length⟩ } where
  once := by
    rw [List.map_append]
    refine h.once.append (List.nodup_singleton _) (List.disjoint_singleton.mpr fun hin => ?_)
    obtain ⟨task', htask', heq⟩ := List.mem_map.mp hin
    exact hnew task' htask' heq
  held j task' hj := by
    rcases getElem?_concat hj with hold | ⟨rfl, rfl⟩
    · rw [Dict.get?_set_ne _ _ (hnew task' (List.mem_of_getElem? hold))]
      exact h.held j task' hold
    · exact Or.inl (Dict.get?_set_self _ _ _)
  stored key entry hget := by
    rw [Dict.get?_set] at hget
    split at hget
    · rename_i heq
      cases hget
      exact ⟨task, by simp, heq.symm, rfl, rfl⟩
    · obtain ⟨task', htask', hrest⟩ := h.stored key entry hget
      exact ⟨task', getElem?_grow htask' _, hrest⟩
  served := by
    have hgrow : ∀ r' : SubmitRequest, Serves s.tasks r' → Serves (s.tasks ++ [task]) r' := by
      intro r' hserves
      unfold Serves at hserves ⊢
      split at hserves
      · obtain ⟨task', htask', hrest⟩ := hserves
        exact ⟨task', getElem?_grow htask' _, hrest⟩
      · obtain ⟨task', htask', hrest⟩ := hserves
        exact ⟨task', List.mem_append_left _ htask', hrest⟩
      · trivial
    intro r' hr'
    rcases mem_modify_cases hr' with ⟨r₀, hr₀, rfl⟩ | hr'
    · rw [hi] at hr₀
      cases hr₀
      exact ⟨task, by simp, hkey, hcontent⟩
    · exact hgrow r' (h.served r' hr')
  dated r' hr' := by
    rcases mem_modify_cases hr' with ⟨r₀, hr₀, rfl⟩ | hr'
    · exact (h.dated r₀ (List.mem_of_getElem? hr₀)).move (by simp)
    · exact h.dated r' hr'
  issued task' htask' := by
    rcases List.mem_append.mp htask' with hold | hnew
    · exact h.issued task' hold
    · rw [List.mem_singleton.mp hnew]
      exact hissued

theorem complete (h : Kept fingerprint k s) {j : Nat} {task : ForwardTask} {response : Response}
    (hj : s.tasks[j]? = some task) (hopen : task.result = none) :
    Kept fingerprint k
      { s with tasks := s.tasks.modify j fun task => { task with result := some response } } := by
  have hsame : ∀ (i : Nat) (task' : ForwardTask), s.tasks[i]? = some task' →
      ∃ task₁, (s.tasks.modify j fun task => { task with result := some response })[i]? = some task₁ ∧
        task₁.key = task'.key ∧ task₁.content = task'.content ∧ task₁.time = task'.time ∧
        (task'.result ≠ none → task₁ = task') := by
    intro i task' hi
    by_cases hij : j = i
    · subst hij
      rw [hj] at hi
      cases hi
      exact ⟨{ task with result := some response }, by rw [List.getElem?_modify_eq, hj]; rfl, rfl, rfl, rfl,
        fun hdone => absurd hopen hdone⟩
    · exact ⟨task', by rw [List.getElem?_modify_ne _ _ hij, hi], rfl, rfl, rfl, fun _ => rfl⟩
  exact
    { once := by
        rw [map_modify_eq (f := fun task : ForwardTask => { task with result := some response }) (fun _ => rfl)]
        exact h.once
      held := by
        intro i task' hi
        rcases getElem?_modify_cases hi with ⟨rfl, task₀, htask₀, rfl⟩ | ⟨-, hold⟩
        · rw [hj] at htask₀
          cases htask₀
          rcases h.held i task hj with hget | ⟨hdone, -⟩
          · exact Or.inl hget
          · exact absurd hopen hdone
        · exact h.held i task' hold
      stored := by
        intro key entry hget
        obtain ⟨task', htask', hkey, hprint, htime⟩ := h.stored key entry hget
        obtain ⟨task₁, htask₁, hkey₁, hcontent₁, htime₁, -⟩ := hsame _ _ htask'
        exact ⟨task₁, htask₁, hkey₁.trans hkey, by rw [hcontent₁, hprint], htime.trans htime₁.symm⟩
      served := by
        intro r hr
        have hserves := h.served r hr
        unfold Serves at hserves ⊢
        split at hserves
        · obtain ⟨task', htask', hkey, hcontent⟩ := hserves
          obtain ⟨task₁, htask₁, hkey₁, hcontent₁, -, -⟩ := hsame _ _ htask'
          exact ⟨task₁, htask₁, hkey₁.trans hkey, hcontent₁.trans hcontent⟩
        · obtain ⟨task', htask', hkey, hcontent, hresult⟩ := hserves
          obtain ⟨i, hi⟩ := List.getElem?_of_mem htask'
          obtain ⟨task₁, htask₁, -, -, -, hdone⟩ := hsame i task' hi
          rw [hdone (by simp [hresult])] at htask₁
          exact ⟨task', List.mem_of_getElem? htask₁, hkey, hcontent, hresult⟩
        · trivial
      dated := h.dated
      issued := by
        intro task' htask'
        rcases mem_modify_cases htask' with ⟨task₀, htask₀, rfl⟩ | htask'
        · exact h.issued task₀ (List.mem_of_getElem? htask₀)
        · exact h.issued task' htask' }

theorem deliver (h : Kept fingerprint k s) {i j : Nat} {r : SubmitRequest} {sub : Submission} {response : Response}
    (hi : s.requests[i]? = some r) (hstage : r.stage = .waiting sub j)
    (hanswer : s.tasks[j]?.bind ForwardTask.result = some response) :
    Kept fingerprint k (s.setStage i (.answered sub response)) := by
  refine h.setStage (by simp) fun r' hr' => ?_
  rw [hi] at hr'
  cases hr'
  have hserves := h.served r (List.mem_of_getElem? hi)
  unfold Serves at hserves
  rw [hstage] at hserves
  obtain ⟨task, htask, hkey, hcontent⟩ := hserves
  rw [htask, Option.bind_some] at hanswer
  exact ⟨task, List.mem_of_getElem? htask, hkey, hcontent, hanswer⟩

variable [DecidableEq δ]

theorem join (h : Kept fingerprint k s) (hinj : Function.Injective fingerprint) {i : Nat} {r : SubmitRequest}
    {sub : Submission} {entry : SubmitEntry δ} (hi : s.requests[i]? = some r)
    (hget : s.submissions.get? (r.key sub) = some entry) : Kept fingerprint k (s.join fingerprint i sub entry) := by
  unfold Submits.join
  split
  · exact h.refuse i 409 _
  · rename_i hsame
    rw [not_not] at hsame
    obtain ⟨task, htask, hkey, hprint, -⟩ := h.stored _ _ hget
    refine h.setStage (by simp) fun r' hr' => ?_
    rw [hi] at hr'
    cases hr'
    exact ⟨task, htask, hkey, hinj (hprint ▸ hsame)⟩

theorem body (h : Kept fingerprint k s) (hinj : Function.Injective fingerprint) {i : Nat} {r : SubmitRequest}
    {sub : Submission} (hi : s.requests[i]? = some r) : Kept fingerprint k (s.body fingerprint k.now i r sub) := by
  unfold Submits.body
  split
  · exact h.refuse i 400 _
  · split
    · exact h.refuse i 400 _
    · dsimp only
      split
      · rename_i entry hget
        exact h.prune.join hinj hi hget
      · split
        · exact h.prune.refuse i 429 _
        · exact h.prune.setIdle (by simp) fun _ => trivial

theorem located (h : Kept fingerprint k s) (hinj : Function.Injective fingerprint) {i : Nat} {r : SubmitRequest}
    {now : ℚ} {sub : Submission} {attachments : List Attachment} {base : String} (hi : s.requests[i]? = some r)
    (hstage : r.stage = .locating now sub attachments) (hprompt : s.prompt k.now (r.key sub) = true) :
    Kept fingerprint k (s.located fingerprint i r now sub attachments base) := by
  unfold Submits.located
  split
  · rename_i entry hget
    exact h.join hinj hi hget
  · rename_i hnone
    have hissued := (h.dated r (List.mem_of_getElem? hi)).2 now sub attachments hstage
    refine h.call ⟨r.key sub, now, _, _, _, _⟩ hi rfl rfl hissued fun task htask hkey => ?_
    -- an earlier call has its entry: the key is prompt
    obtain ⟨entry, hget, -⟩ := h.held_of_prompt htask (hkey ▸ hprompt)
    change task.key = r.key sub at hkey
    rw [hkey, hnone] at hget
    cases hget

end Kept

section Calls

variable {i : Nat} {r : SubmitRequest} {sub : Submission} {t : Submits δ}

-- When the request's body, or the address of the backend, arrives, the calls for its key are open or young.
def timely (s : Submits δ) (k : Clock) : SubmitAction → Bool
  | .body i (some sub) => s.requests[i]?.all fun r => s.prompt k.now (r.key sub)
  | .located i (some _) =>
      s.requests[i]?.all fun r =>
        match r.stage with
        | .locating _ sub _ => s.prompt k.now (r.key sub)
        | _ => true
  | _ => true

theorem Kept.next [DecidableEq δ] (h : Kept fingerprint k s) (hk : k.Sound) (hinj : Function.Injective fingerprint) {a : SubmitAction}
    (htimely : s.timely k a = true) (ht : s.next fingerprint k a = some t) : Kept fingerprint k t := by
  cases a with
  | post c path =>
      simp only [Submits.next] at ht
      split at ht
      · cases ht
        exact h.add_request rfl (hk.issued ‹_›)
      · cases ht
  | body i sub =>
      obtain ⟨r, hi, ht⟩ := Option.bind_eq_some_iff.mp ht
      split at ht
      · cases ht
        exact h.refuse i 400 _
      · cases ht
        exact h.body hinj hi
      · cases ht
  | located i base =>
      obtain ⟨r, hi, ht⟩ := Option.bind_eq_some_iff.mp ht
      split at ht
      · cases ht
        exact h.refuse i 503 _
      · rename_i now sub attachments base hstage _
        cases ht
        refine h.located hinj hi hstage ?_
        simpa [timely, hi, hstage] using htimely
      · cases ht
  | complete j answer =>
      obtain ⟨task, hj, ht⟩ := Option.bind_eq_some_iff.mp ht
      split at ht
      · rename_i hopen
        cases ht
        exact h.complete hj hopen
      · cases ht
  | deliver i =>
      obtain ⟨r, hi, ht⟩ := Option.bind_eq_some_iff.mp ht
      split at ht
      · rename_i sub j hstage
        obtain ⟨response, hanswer, rfl⟩ := Option.map_eq_some_iff.mp ht
        exact h.deliver hi hstage hanswer
      · cases ht
  | drop i =>
      obtain ⟨r, hi, ht⟩ := Option.bind_eq_some_iff.mp ht
      split at ht
      all_goals cases ht
      all_goals exact h.setIdle (by simp) fun _ => trivial
  | uploadStarted =>
      cases ht
      exact ⟨h.once, h.held, h.stored, h.served, h.dated, h.issued⟩
  | uploaded c uid ref =>
      cases ht
      exact ⟨h.once, h.held, h.stored, h.served, h.dated, h.issued⟩

-- The steps at which a request that has passed the checks looks for its entry.
def Looks (s : Submits δ) (k : Clock) (i : Nat) (r : SubmitRequest) (sub : Submission) : SubmitAction → Prop
  | .body i' (some sub') =>
      i' = i ∧ sub' = sub ∧ r.stage = .reading ∧ sub.error = none ∧
        s.attachments k.now r.cookie sub.uploadIds ≠ none
  | .located i' (some _) => i' = i ∧ ∃ now attachments, r.stage = .locating now sub attachments
  | _ => False

def Refused (r : SubmitRequest) : Prop := r.stage = .refused ⟨409, "request_id reused for different content"⟩

theorem Kept.refuses [DecidableEq δ] (h : Kept fingerprint k s) (hinj : Function.Injective fingerprint) {a : SubmitAction}
    (htimely : s.timely k a = true) (ht : s.next fingerprint k a = some t) (hi : s.requests[i]? = some r)
    (hlooks : s.Looks k i r sub a) {task : ForwardTask} (htask : task ∈ s.tasks) (hkey : task.key = r.key sub)
    (hother : task.content ≠ sub.content) : t.tasks = s.tasks ∧ ∃ r', t.requests[i]? = some r' ∧ Refused r' := by
  have hjoin : ∀ (s' : Submits δ) (entry : SubmitEntry δ), s'.requests = s.requests → s'.tasks = s.tasks →
      entry.fingerprint = fingerprint task.content →
      (s'.join fingerprint i sub entry).tasks = s.tasks ∧
        ∃ r', (s'.join fingerprint i sub entry).requests[i]? = some r' ∧ Refused r' := by
    intro s' entry hrequests htasks hprint
    rw [Submits.join, if_pos (by rw [hprint]; exact fun heq => hother (hinj heq))]
    refine ⟨htasks, { r with stage := _ }, ?_, rfl⟩
    simp [Submits.refuse, Submits.setStage, hrequests, hi]
  cases a with
  | body i' sub' =>
      cases sub' with
      | none => exact hlooks.elim
      | some sub' =>
          obtain ⟨rfl, rfl, hstage, herror, hattachments⟩ := hlooks
          simp only [Submits.next, hi, Option.bind_some, hstage, Option.some.injEq] at ht
          subst ht
          have hprompt : s.prompt k.now task.key = true := by simpa [timely, hi, hkey] using htimely
          obtain ⟨entry, hget, hprint⟩ := h.prune.held_of_prompt htask hprompt
          obtain ⟨attachments, hattachments⟩ := Option.ne_none_iff_exists'.mp hattachments
          rw [hkey] at hget
          simp only [Submits.body, herror, hattachments, hget]
          exact hjoin _ entry rfl rfl hprint
  | located i' base =>
      cases base with
      | none => exact hlooks.elim
      | some base =>
          obtain ⟨rfl, now, attachments, hstage⟩ := hlooks
          simp only [Submits.next, hi, Option.bind_some, hstage, Option.some.injEq] at ht
          subst ht
          have hprompt : s.prompt k.now task.key = true := by simpa [timely, hi, hstage, hkey] using htimely
          obtain ⟨entry, hget, hprint⟩ := h.held_of_prompt htask hprompt
          rw [hkey] at hget
          simp only [Submits.located, hget]
          exact hjoin s entry rfl rfl hprint
  | _ => exact hlooks.elim

end Calls

end Kept

end Submits

end GaHub.Remote
