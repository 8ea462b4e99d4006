import GaHub.Lib.Lists
import GaHub.Lib.Machine
import GaHub.Remote.Authority

namespace GaHub.Remote.Handle

open Lib Program

-- A routine that runs for a request, and when that request's cookie was checked.
structure Task where
  request : Nat
  checked : Option ℚ := none
  program : Handler Outcome

inductive LinkStage where
  | opening
  | open
  | closed
  deriving DecidableEq

-- A WebSocket to a client. A live one is `opening` until `outbound` has sent what the channel had.
structure Link where
  request : Nat
  socket : Socket
  stage : LinkStage := .opening
  deriving DecidableEq

structure Made where
  request : Nat
  checked : Option ℚ
  call : Call

structure Sent where
  link : Nat
  time : ℚ
  data : String
  deriving DecidableEq

structure State where
  clock : Clock := {}
  requests : List Request := []
  tasks : List Task := []
  links : List Link := []
  calls : List Made := []
  sent : List Sent := []

inductive Action where
  | pass (seconds : ℚ)
  | request (r : Request)
  -- what a task waits for is there
  | answer (t : Nat) (reply : (e : Effect) → e.Answer)
  | drop (t : Nat)
  -- `await send(channel.latest)`
  | first (n : Nat) (data : String)
  | update (n : Nat) (data : Option String)
  | relay (n : Nat) (data : String)
  | message (n : Nat)
  | close (n : Nat)

namespace State

variable (s : State)

def cookie (i : Nat) : Option CookieId := s.requests[i]?.bind Request.cookie

def authenticated (i : Nat) : Bool := (s.cookie i).any s.clock.authenticated

-- The answers that are the gateway's own.
def reply (i : Nat) : (e : Effect) → e.Answer → e.Answer
  | .authenticated, _ => s.authenticated i
  | .issue, _ => s.clock.logins.length
  | _, a => a

def perform (sign : Project → String) (task : Task) : Effect → State
  | .issue => { s with clock := s.clock.login }
  | .call c => { s with calls := s.calls ++ [⟨task.request, task.checked, c⟩] }
  | .start job => { s with tasks := s.tasks ++ [⟨task.request, task.checked, runJob sign job⟩] }
  | .serve socket => { s with links := s.links ++ [⟨task.request, socket, .opening⟩] }
  | _ => s

def checkedBy (task : Task) : (e : Effect) → e.Answer → Option ℚ
  | .authenticated, ok => if ok then some s.clock.now else task.checked
  | _, _ => task.checked

def setTask (t : Nat) (task : Task) : State := { s with tasks := s.tasks.modify t fun _ => task }

def resume (sign : Project → String) (t : Nat) (task : Task) (e : Effect) (k : e.Answer → Handler Outcome)
    (a : e.Answer) : State :=
  (s.perform sign task e).setTask t ⟨task.request, s.checkedBy task e a, k a⟩

def setStage (n : Nat) (stage : LinkStage) : State :=
  { s with links := s.links.modify n fun link => { link with stage } }

def send (n : Nat) (data : String) : State := { s with sent := s.sent ++ [⟨n, s.clock.now, data⟩] }

end State

def next (sign : Project → String) (s : State) : Action → Option State
  | .pass seconds => some { s with clock := s.clock.pass seconds }
  | .request r => some { s with
      requests := s.requests ++ [r], tasks := s.tasks ++ [⟨s.requests.length, none, handle sign r⟩] }
  | .answer t reply =>
      s.tasks[t]?.bind fun task =>
        match task.program with
        | .ask e k => some (s.resume sign t task e k (s.reply task.request e (reply e)))
        | _ => none
  | .drop t => s.tasks[t]?.map fun task => s.setTask t { task with program := .raise .other }
  | .first n data =>
      match s.links[n]? with
      | some ⟨_, .live _, .opening⟩ => some ((s.send n data).setStage n .open)
      | _ => none
  | .update n data =>
      match s.links[n]?, data with
      | some ⟨i, .live _, .open⟩, some data =>
          if s.authenticated i then some (s.send n data) else some (s.setStage n .closed)
      | some ⟨_, .live _, .open⟩, none => some (s.setStage n .closed)
      | _, _ => none
  | .relay n data =>
      match s.links[n]? with
      | some ⟨_, .proxied _, .opening⟩ => some (s.send n data)
      | _ => none
  | .message n =>
      match s.links[n]? with
      | some ⟨i, .live _, stage⟩ =>
          if stage = .closed then none else if s.authenticated i then some s else some (s.setStage n .closed)
      | some ⟨_, .proxied _, .opening⟩ => some s
      | _ => none
  | .close n => some (s.setStage n .closed)

def machine (sign : Project → String) : Machine State Action := ⟨{}, next sign⟩

namespace State

variable (s : State)

-- The request carried a cookie of this gateway that had not expired at that time.
def Vouched (i : Nat) (time : ℚ) : Prop :=
  ∃ c login, s.cookie i = some c ∧ s.clock.logins[c]? = some login ∧ time < expires login

-- The call was made for a request whose cookie had been checked, and that allows it.
def Authorised (x : Made) : Prop :=
  ∃ r time, s.requests[x.request]? = some r ∧ x.checked = some time ∧ s.Vouched x.request time ∧ r.permits x.call

def Unexpired (m : Sent) : Prop := ∃ link, s.links[m.link]? = some link ∧ s.Vouched link.request m.time

instance (m : Sent) : Decidable (s.Unexpired m) :=
  decidable_of_iff ((s.links[m.link]?.any fun link => (s.cookie link.request).any fun c =>
      s.clock.logins[c]?.any fun login => decide (m.time < expires login)) = true) <| by
    simp only [Option.any_eq_true, decide_eq_true_eq, Unexpired, Vouched, exists_and_left]

-- What is sent without a look at the cookie is sent while that is valid: the first message of a live WebSocket, and all
-- that a proxied one relays.
def watched : Action → Bool
  | .first n _ | .relay n _ => s.links[n]?.any fun link => s.authenticated link.request
  | _ => true

end State

-- A later state: requests and logins only come in.
structure State.Before (s t : State) : Prop where
  requests : ∀ (i : Nat) (r : Request), s.requests[i]? = some r → t.requests[i]? = some r
  logins : ∀ (c : CookieId) (login : ℚ), s.clock.logins[c]? = some login → t.clock.logins[c]? = some login

section Later

variable {s t : State} {i : Nat} {time : ℚ}

theorem State.vouched_now (h : s.authenticated i = true) : s.Vouched i s.clock.now := by
  obtain ⟨c, hc, hvalid⟩ := (Option.any_eq_true _ _).mp h
  obtain ⟨login, hlogin, hnow⟩ := authenticated_iff.mp hvalid
  exact ⟨c, login, hc, hlogin, hnow⟩

theorem State.cookie_later (h : s.Before t) {c : CookieId} (hc : s.cookie i = some c) : t.cookie i = some c := by
  obtain ⟨r, hr, hcookie⟩ := Option.bind_eq_some_iff.mp hc
  exact Option.bind_eq_some_iff.mpr ⟨r, h.requests i r hr, hcookie⟩

theorem State.Vouched.later (hv : s.Vouched i time) (h : s.Before t) : t.Vouched i time := by
  obtain ⟨c, login, hc, hlogin, htime⟩ := hv
  exact ⟨c, login, State.cookie_later h hc, h.logins c login hlogin, htime⟩

theorem State.Vouched.earlier {time' : ℚ} (hv : s.Vouched i time') (h : s.Before t) (ht : t.Vouched i time) :
    s.Vouched i time := by
  obtain ⟨c, login, hc, hlogin, -⟩ := hv
  obtain ⟨c', login', hc', hlogin', htime⟩ := ht
  rw [State.cookie_later h hc] at hc'
  cases hc'
  rw [h.logins c login hlogin] at hlogin'
  cases hlogin'
  exact ⟨c, login, hc, hlogin, htime⟩

theorem State.Authorised.later {x : Made} (hx : s.Authorised x) (h : s.Before t) : t.Authorised x := by
  obtain ⟨r, time, hr, hchecked, hvouched, hpermits⟩ := hx
  exact ⟨r, time, h.requests _ r hr, hchecked, hvouched.later h, hpermits⟩

end Later

-- What is left of a task keeps to its request, and its check was a good one.
def State.Keeps (s : State) (task : Task) : Prop :=
  ∃ r, s.requests[task.request]? = some r ∧ (∀ time, task.checked = some time → s.Vouched task.request time) ∧
    Follows (authority r) (fun _ _ => True) task.checked.isSome task.program

structure Sound (s : State) : Prop where
  tasks : ∀ (t : Nat) (task : Task), s.tasks[t]? = some task → s.Keeps task
  links : ∀ (n : Nat) (link : Link), s.links[n]? = some link → ∃ time, s.Vouched link.request time
  calls : ∀ x ∈ s.calls, s.Authorised x
  sent : ∀ m ∈ s.sent, ∃ link, s.links[m.link]? = some link

section Steps

variable {sign : Project → String} {s t : State} {a : Action}

inductive Step (sign : Project → String) (s : State) : Bool → State → Prop
  | pass (seconds : ℚ) : Step sign s true { s with clock := s.clock.pass seconds }
  | request (r : Request) : Step sign s true { s with
      requests := s.requests ++ [r], tasks := s.tasks ++ [⟨s.requests.length, none, handle sign r⟩] }
  | answer {n : Nat} {task : Task} {e : Effect} {k : e.Answer → Handler Outcome} (a : e.Answer)
      (htask : s.tasks[n]? = some task) (hask : task.program = .ask e k) :
      Step sign s true (s.resume sign n task e k (s.reply task.request e a))
  | drop {n : Nat} {task : Task} (htask : s.tasks[n]? = some task) :
      Step sign s true (s.setTask n { task with program := .raise .other })
  | stay : Step sign s true s
  | stage (n : Nat) (stage : LinkStage) : Step sign s true (s.setStage n stage)
  | send {n : Nat} {link : Link} (data : String) (hlink : s.links[n]? = some link) :
      Step sign s (s.authenticated link.request) (s.send n data)
  | first {n : Nat} {link : Link} (data : String) (hlink : s.links[n]? = some link) :
      Step sign s (s.authenticated link.request) ((s.send n data).setStage n .open)

theorem next_step (h : next sign s a = some t) : Step sign s (s.watched a) t := by
  cases a with
  | pass seconds =>
      cases h
      exact .pass seconds
  | request r =>
      cases h
      exact .request r
  | answer n reply =>
      obtain ⟨task, htask, hstep⟩ := Option.bind_eq_some_iff.mp h
      split at hstep
      · rename_i e k hask
        cases hstep
        exact .answer (reply e) htask hask
      · cases hstep
  | drop n =>
      obtain ⟨task, htask, rfl⟩ := Option.map_eq_some_iff.mp h
      exact .drop htask
  | close n =>
      cases h
      exact .stage n .closed
  | first n data =>
      simp only [next] at h
      split at h
      · rename_i hlink
        cases h
        simp only [State.watched, hlink, Option.any_some]
        exact .first data hlink
      · cases h
  | relay n data =>
      simp only [next] at h
      split at h
      · rename_i hlink
        cases h
        simp only [State.watched, hlink, Option.any_some]
        exact .send data hlink
      · cases h
  | update n data =>
      simp only [next] at h
      split at h
      · rename_i hlink
        split at h
        · rename_i hauth
          cases h
          change Step sign s true _
          rw [← hauth]
          exact .send _ hlink
        · cases h
          exact .stage n .closed
      · cases h
        exact .stage n .closed
      · cases h
  | message n =>
      simp only [next] at h
      split at h
      · split at h
        · cases h
        · split at h
          · cases h
            exact .stay
          · cases h
            exact .stage n .closed
      · cases h
        exact .stay
      · cases h

variable {w : Bool}

theorem before_perform (task : Task) (e : Effect) : s.Before (s.perform sign task e) := by
  cases e with
  | issue => exact ⟨fun _ _ h => h, fun _ _ h => getElem?_grow h _⟩
  | _ => exact ⟨fun _ _ h => h, fun _ _ h => h⟩

theorem Step.before (h : Step sign s w t) : s.Before t := by
  cases h with
  | request r => exact ⟨fun _ _ h => getElem?_grow h _, fun _ _ h => h⟩
  | answer a htask hask => exact ⟨(before_perform _ _).requests, (before_perform _ _).logins⟩
  | _ => exact ⟨fun _ _ h => h, fun _ _ h => h⟩

theorem setStage_links {n m : Nat} {stage : LinkStage} {link : Link} (hlink : s.links[m]? = some link) :
    ∃ link', (s.setStage n stage).links[m]? = some link' ∧ link'.request = link.request := by
  simp only [State.setStage, List.getElem?_modify, hlink]
  split <;> exact ⟨_, rfl, rfl⟩

theorem Step.links_kept (h : Step sign s w t) {m : Nat} {link : Link} (hlink : s.links[m]? = some link) :
    ∃ link', t.links[m]? = some link' ∧ link'.request = link.request := by
  cases h with
  | answer a htask hask =>
      rename_i task e k
      cases e with
      | serve socket => exact ⟨link, getElem?_grow hlink _, rfl⟩
      | _ => exact ⟨link, hlink, rfl⟩
  | stage n stage => exact setStage_links hlink
  | first data hlink' => exact setStage_links (s := s.send _ data) hlink
  | _ => exact ⟨link, hlink, rfl⟩

theorem setStage_mem {n m : Nat} {stage : LinkStage} {link : Link} (hlink : (s.setStage n stage).links[m]? = some link) :
    ∃ link', s.links[m]? = some link' ∧ link'.request = link.request := by
  rcases getElem?_modify_cases hlink with ⟨rfl, link', hlink', rfl⟩ | ⟨-, hlink'⟩
  · exact ⟨link', hlink', rfl⟩
  · exact ⟨link, hlink', rfl⟩

theorem keeps_later {task : Task} (hkeeps : s.Keeps task) (h : s.Before t) : t.Keeps task := by
  obtain ⟨r, hr, hchecked, hfollows⟩ := hkeeps
  exact ⟨r, h.requests _ r hr, fun time htime => (hchecked time htime).later h, hfollows⟩

-- A task that was allowed its question has been checked where that matters, and learns of its check by the answer.
theorem checkedBy_isSome (task : Task) (e : Effect) (a : e.Answer) :
    (s.checkedBy task e a).isSome = learn task.checked.isSome e a := by
  cases e with
  | authenticated => cases a <;> simp [State.checkedBy, learn]
  | _ => rfl

theorem checkedBy_vouched {task : Task} (hchecked : ∀ time, task.checked = some time → s.Vouched task.request time)
    (e : Effect) (a : e.Answer) {time : ℚ} (h : s.checkedBy task e (s.reply task.request e a) = some time) :
    s.Vouched task.request time := by
  cases e with
  | authenticated =>
      change (if s.authenticated task.request = true then some s.clock.now else task.checked) = some time at h
      by_cases hauth : s.authenticated task.request = true
      · rw [if_pos hauth] at h
        cases h
        exact State.vouched_now hauth
      · rw [if_neg hauth] at h
        exact hchecked time h
  | _ => exact hchecked time h

theorem keeps_resume {task : Task} {e : Effect} {k : e.Answer → Handler Outcome} (hkeeps : s.Keeps task)
    (hask : task.program = .ask e k) (a : e.Answer) :
    s.Keeps ⟨task.request, s.checkedBy task e (s.reply task.request e a), k (s.reply task.request e a)⟩ := by
  obtain ⟨r, hr, hchecked, hfollows⟩ := hkeeps
  refine ⟨r, hr, fun time htime => checkedBy_vouched hchecked e a htime, ?_⟩
  rw [hask] at hfollows
  have hrest := hfollows.2 (s.reply task.request e a)
  change Follows _ _ (learn _ e _) _ at hrest
  rw [← checkedBy_isSome] at hrest
  exact hrest

theorem asked {task : Task} {e : Effect} {k : e.Answer → Handler Outcome} (hkeeps : s.Keeps task)
    (hask : task.program = .ask e k) : ∃ r, s.requests[task.request]? = some r ∧ r.allows task.checked.isSome e ∧
      ∀ time, task.checked = some time → s.Vouched task.request time := by
  obtain ⟨r, hr, hchecked, hfollows⟩ := hkeeps
  rw [hask] at hfollows
  exact ⟨r, hr, hfollows.1, hchecked⟩

theorem allows_checked {r : Request} {checked : Bool} {job : Job} (h : r.allows checked (.start job)) :
    checked = true := by
  cases job with
  | forward base path text attachments => exact h.1
  | perform cookie data => exact h.1
  | channel base sid => exact h

theorem perform_tasks (hs : Sound s) {n : Nat} {task : Task} {e : Effect} {k : e.Answer → Handler Outcome}
    (htask : s.tasks[n]? = some task) (hask : task.program = .ask e k) (m : Nat) (task' : Task)
    (h : (s.perform sign task e).tasks[m]? = some task') : s.Keeps task' := by
  cases e with
  | start job =>
      rcases getElem?_concat h with hold | ⟨-, rfl⟩
      · exact hs.tasks m task' hold
      · obtain ⟨r, hr, hallows, hchecked⟩ := asked (hs.tasks n task htask) hask
        refine ⟨r, hr, hchecked, ?_⟩
        have hsome := allows_checked hallows
        change Follows _ _ task.checked.isSome _
        rw [hsome] at hallows ⊢
        exact (runJob_safe hallows).weaken fun _ _ _ => trivial
  | _ => exact hs.tasks m task' h

theorem perform_links (hs : Sound s) {n : Nat} {task : Task} {e : Effect} {k : e.Answer → Handler Outcome}
    (htask : s.tasks[n]? = some task) (hask : task.program = .ask e k) (m : Nat) (link : Link)
    (h : (s.perform sign task e).links[m]? = some link) : ∃ time, s.Vouched link.request time := by
  cases e with
  | serve socket =>
      rcases getElem?_concat h with hold | ⟨-, rfl⟩
      · exact hs.links m link hold
      · obtain ⟨r, -, hallows, hchecked⟩ := asked (hs.tasks n task htask) hask
        obtain ⟨time, htime⟩ := Option.isSome_iff_exists.mp hallows
        exact ⟨time, hchecked time htime⟩
  | _ => exact hs.links m link h

theorem perform_calls (hs : Sound s) {n : Nat} {task : Task} {e : Effect} {k : e.Answer → Handler Outcome}
    (htask : s.tasks[n]? = some task) (hask : task.program = .ask e k) (x : Made)
    (h : x ∈ (s.perform sign task e).calls) : s.Authorised x := by
  cases e with
  | call c =>
      rcases List.mem_append.mp h with hold | hnew
      · exact hs.calls x hold
      · rw [List.mem_singleton.mp hnew]
        obtain ⟨r, hr, hallows, hchecked⟩ := asked (hs.tasks n task htask) hask
        obtain ⟨time, htime⟩ := Option.isSome_iff_exists.mp hallows.1
        exact ⟨r, time, hr, htime, hchecked time htime, hallows.2⟩
  | _ => exact hs.calls x h

theorem setTask_keeps {n : Nat} {task : Task} (hnew : t.Keeps task)
    (hold : ∀ (m : Nat) (task' : Task), s.tasks[m]? = some task' → t.Keeps task') (m : Nat) (task' : Task)
    (h : (s.setTask n task).tasks[m]? = some task') : t.Keeps task' := by
  rcases getElem?_modify_cases h with ⟨-, _, -, rfl⟩ | ⟨-, h⟩
  · exact hnew
  · exact hold m task' h

theorem Sound.start : Sound {} := by
  constructor <;> simp

theorem Sound.step (hs : Sound s) (h : Step sign s w t) : Sound t := by
  have hlater := h.before
  refine ⟨?_, ?_, ?_, ?_⟩
  · intro m task' htask'
    cases h with
    | request r =>
        rcases getElem?_concat htask' with hold | ⟨-, rfl⟩
        · exact keeps_later (hs.tasks m task' hold) hlater
        · refine ⟨r, List.getElem?_concat_length, ?_, handle_follows⟩
          intro time htime
          cases htime
    | answer a htask hask =>
        exact setTask_keeps (keeps_later (keeps_resume (hs.tasks _ _ htask) hask a) hlater)
          (fun m task' h => keeps_later (perform_tasks hs htask hask m task' h) hlater) m task' htask'
    | drop htask =>
        obtain ⟨r, hr, hchecked, -⟩ := hs.tasks _ _ htask
        refine setTask_keeps ?_ hs.tasks m task' htask'
        exact ⟨r, hr, hchecked, trivial⟩
    | _ => exact keeps_later (hs.tasks m task' htask') hlater
  · intro m link hlink
    cases h with
    | answer a htask hask =>
        obtain ⟨time, hvouched⟩ := perform_links hs htask hask m link hlink
        exact ⟨time, hvouched.later hlater⟩
    | stage n stage =>
        obtain ⟨link', hlink', hsame⟩ := setStage_mem hlink
        rw [← hsame]
        exact hs.links m link' hlink'
    | first data hlink' =>
        obtain ⟨link', hold, hsame⟩ := setStage_mem (s := s.send _ data) hlink
        rw [← hsame]
        exact hs.links m link' hold
    | _ =>
        obtain ⟨time, hvouched⟩ := hs.links m link hlink
        exact ⟨time, hvouched.later hlater⟩
  · intro x hx
    cases h with
    | answer a htask hask => exact (perform_calls hs htask hask x hx).later hlater
    | _ => exact (hs.calls x hx).later hlater
  · intro m hm
    have hkept : ∀ m ∈ s.sent, ∃ link, t.links[m.link]? = some link := fun m hm => by
      obtain ⟨link, hlink⟩ := hs.sent m hm
      obtain ⟨link', hlink', -⟩ := h.links_kept hlink
      exact ⟨link', hlink'⟩
    have hstep := h
    cases h with
    | answer a htask hask =>
        refine hkept m ?_
        rename_i task e k
        cases e <;> exact hm
    | send data hlink =>
        rcases List.mem_append.mp hm with hold | hnew
        · exact hkept m hold
        · rw [List.mem_singleton.mp hnew]
          exact ⟨_, hlink⟩
    | first data hlink =>
        rcases List.mem_append.mp hm with hold | hnew
        · exact hkept m hold
        · rw [List.mem_singleton.mp hnew]
          obtain ⟨link', hlink', -⟩ := hstep.links_kept hlink
          exact ⟨link', hlink'⟩
    | _ => exact hkept m hm

theorem State.Unexpired.earlier {m : Sent} (hs : Sound s) (hm : m ∈ s.sent) (h : Step sign s w t)
    (hsent : t.Unexpired m) : s.Unexpired m := by
  obtain ⟨link', hlink', hvouched⟩ := hsent
  obtain ⟨link, hlink⟩ := hs.sent m hm
  obtain ⟨link'', hlink'', hsame⟩ := h.links_kept hlink
  rw [hlink''] at hlink'
  cases hlink'
  rw [hsame] at hvouched
  obtain ⟨time, htime⟩ := hs.links _ link hlink
  exact ⟨link, hlink, htime.earlier h.before hvouched⟩

theorem Step.sent_kept (h : Step sign s w t) {m : Sent} (hm : m ∈ s.sent) : m ∈ t.sent := by
  cases h with
  | answer a htask hask =>
      rename_i task e k
      cases e <;> exact hm
  | send data hlink => exact List.mem_append_left _ hm
  | first data hlink => exact List.mem_append_left _ hm
  | _ => exact hm

theorem expired_stays (hs : Sound s) (h : Step sign s w t) (hbad : ∃ m ∈ s.sent, ¬s.Unexpired m) :
    ∃ m ∈ t.sent, ¬t.Unexpired m := by
  obtain ⟨m, hm, hnot⟩ := hbad
  exact ⟨m, h.sent_kept hm, fun hgood => hnot (State.Unexpired.earlier hs hm h hgood)⟩

theorem authenticated_of_vouched {i : Nat} (h : s.Vouched i s.clock.now) : s.authenticated i = true := by
  obtain ⟨c, login, hc, hlogin, hnow⟩ := h
  exact (Option.any_eq_true _ _).mpr ⟨c, hc, authenticated_iff.mpr ⟨login, hlogin, hnow⟩⟩

theorem unexpired_sent (hs : Sound s) (h : Step sign s w t) {n : Nat} {link : Link} {data : String}
    (hlink : s.links[n]? = some link) : t.Unexpired ⟨n, s.clock.now, data⟩ ↔ s.authenticated link.request = true := by
  obtain ⟨link', hlink', hsame⟩ := h.links_kept hlink
  constructor
  · rintro ⟨link'', hlink'', hvouched⟩
    rw [hlink'] at hlink''
    cases hlink''
    rw [hsame] at hvouched
    obtain ⟨time, htime⟩ := hs.links n link hlink
    exact authenticated_of_vouched (htime.earlier h.before hvouched)
  · intro hauth
    refine ⟨link', hlink', ?_⟩
    rw [hsame]
    exact (State.vouched_now hauth).later h.before

theorem State.Unexpired.later {m : Sent} (hm : s.Unexpired m) (h : Step sign s w t) : t.Unexpired m := by
  obtain ⟨link, hlink, hvouched⟩ := hm
  obtain ⟨link', hlink', hsame⟩ := h.links_kept hlink
  refine ⟨link', hlink', ?_⟩
  rw [hsame]
  exact hvouched.later h.before

theorem expired_of_unwatched (hs : Sound s) (h : Step sign s w t) (hw : w ≠ true) : ∃ m ∈ t.sent, ¬t.Unexpired m := by
  have hstep := h
  cases h with
  | send data hlink =>
      exact ⟨_, List.mem_append_right _ List.mem_cons_self, fun h => hw ((unexpired_sent hs hstep hlink).mp h)⟩
  | first data hlink =>
      exact ⟨_, List.mem_append_right _ List.mem_cons_self, fun h => hw ((unexpired_sent hs hstep hlink).mp h)⟩
  | _ => exact absurd rfl hw

theorem unexpired_of_watched (hs : Sound s) (h : Step sign s w t) (hw : w = true) (hgood : ∀ m ∈ s.sent, s.Unexpired m) :
    ∀ m ∈ t.sent, t.Unexpired m := by
  have hstep := h
  intro m hm
  cases h with
  | answer a htask hask =>
      rename_i task e k
      refine (hgood m ?_).later hstep
      cases e <;> exact hm
  | send data hlink =>
      rcases List.mem_append.mp hm with hold | hnew
      · exact (hgood m hold).later hstep
      · rw [List.mem_singleton.mp hnew]
        exact (unexpired_sent hs hstep hlink).mpr hw
  | first data hlink =>
      rcases List.mem_append.mp hm with hold | hnew
      · exact (hgood m hold).later hstep
      · rw [List.mem_singleton.mp hnew]
        exact (unexpired_sent hs hstep hlink).mpr hw
  | _ => exact (hgood m hm).later hstep

theorem Sound.next (hs : Sound s) (h : Handle.next sign s a = some t) : Sound t := hs.step (next_step h)

theorem sound_of_reachable (hs : (machine sign).Reachable s) : Sound s :=
  hs.invariant Sound.start fun _ _ _ hs h => hs.next h

end Steps

-- Every backend call is made for a request whose cookie was valid when it was checked, keeps to what that request is
-- authorised for, and no session data follows the expiry of its cookie if and only if the run is a watched one.
theorem remote_authorised {sign : Project → String} {acts : List Action} {s : State}
    (hrun : (machine sign).run {} acts = some s) :
    (∀ x ∈ s.calls, s.Authorised x) ∧ ((∀ m ∈ s.sent, s.Unexpired m) ↔
      ((machine sign).restrict fun s a => s.watched a = true).run {} acts = some s) := by
  refine ⟨(sound_of_reachable ⟨acts, hrun⟩).calls, fun hgood => ?_, fun hrun => ?_⟩
  · refine Machine.restrict_run Sound (fun t => ∃ m ∈ t.sent, ¬t.Unexpired m) (fun _ _ _ hs h => hs.next h)
      (fun _ _ _ hs h hnot => expired_of_unwatched hs (next_step h) hnot)
      (fun _ _ _ hs h hbad => expired_stays hs (next_step h) hbad) Sound.start hrun ?_
    rintro ⟨m, hm, hnot⟩
    exact hnot (hgood m hm)
  · refine (Machine.run_invariant (P := fun t => Sound t ∧ ∀ m ∈ t.sent, t.Unexpired m) ?_ acts ⟨Sound.start, ?_⟩ hrun).2
    · rintro s a t ⟨hs, hgood⟩ h
      obtain ⟨hwatched, hnext⟩ := Machine.restrict_next h
      exact ⟨hs.next hnext, unexpired_of_watched hs (next_step hnext) hwatched hgood⟩
    · intro m hm
      cases hm

def healthy : (e : Effect) → e.Answer
  | .authenticated | .credentials => true
  | .uploadsFull => false
  | .issue | .failures _ => 0
  | .json => .ok .null
  | .read => .ok ""
  | .part => .ok none
  | .upload _ => none
  | .token | .file _ => ""
  | .target => some "http://127.0.0.1:8000"
  | .ports => []
  | .call _ => .ok ⟨101, .ok "", .ok .null⟩
  | .submission _ _ | .creation _ => .absent false
  | .entry _ _ => .done .null
  | .start _ | .serve _ => ()
  | .forwarded => ⟨200, ""⟩
  | .performed => .ok .upgraded
  | .hub _ _ => .ok true
  | .latest _ _ | .compact _ => .ok .null
  | .decorate data _ => data
  | .artifact _ _ => .ok ⟨200, ""⟩

def loginRequest : Request := { host := publicHost, method := .post, path := "/_gateway/login" }

def socketRequest : Request :=
  { host := publicHost, method := .get, path := "/ws/sessions/a", headers := [("Upgrade", "websocket")], cookie := some 0 }

-- A login, and the backend's WebSocket of a session relayed; the message comes in time, and then a minute after expiry.
def relayed (late : ℚ) : List Action :=
  [.request loginRequest, .answer 0 healthy, .answer 0 healthy, .answer 0 healthy, .request socketRequest,
    .answer 1 healthy, .answer 1 healthy, .answer 1 healthy, .answer 1 healthy, .pass late, .relay 0 "secret"]

theorem remote_authorised_relayed : ∃ s : State,
    (s.calls.map (fun x => x.call.target) = ["/ws/sessions/a"] ∧ s.sent = [⟨0, 60, "secret"⟩]) ∧
      (∀ x ∈ s.calls, s.Authorised x) ∧ ((∀ m ∈ s.sent, s.Unexpired m) ↔
        ((machine fun _ => "").restrict fun s a => s.watched a = true).run {} (relayed 60) = some s) := by
  have hrun : ((machine fun _ => "").run {} (relayed 60)).map
      (fun s => (s.calls.map fun x => x.call.target, s.sent)) = some (["/ws/sessions/a"], [⟨0, 60, "secret"⟩]) := by
    decide +kernel
  obtain ⟨s, hs, heq⟩ := Option.map_eq_some_iff.mp hrun
  exact ⟨s, Prod.mk.inj heq, remote_authorised hs⟩

theorem sent_after_expiry : ∃ s : State, (machine fun _ => "").Reachable s ∧ ¬∀ m ∈ s.sent, s.Unexpired m := by
  have hrun : ((machine fun _ => "").run {} (relayed 43260)).map
      (fun s => decide (∀ m ∈ s.sent, s.Unexpired m)) = some false := by
    decide +kernel
  obtain ⟨s, hs, heq⟩ := Option.map_eq_some_iff.mp hrun
  exact ⟨s, ⟨relayed 43260, hs⟩, of_decide_eq_false heq⟩

end GaHub.Remote.Handle
