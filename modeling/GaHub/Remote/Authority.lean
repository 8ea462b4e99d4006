import GaHub.Remote.Handle

namespace GaHub.Remote.Handle

open Lib Program

-- What a request allows its routines to ask once its cookie was checked; the check is the one thing they learn.
def Request.allows (r : Request) (checked : Bool) : Effect → Prop
  | .call c => checked = true ∧ r.permits c
  | .start (.forward _ path _ _) =>
      checked = true ∧ r.header "Origin" = some publicOrigin ∧ (sessionRoute "/runs" path).isSome
  | .start (.perform _ _) => checked = true ∧ r.header "Origin" = some publicOrigin
  | .start (.channel _ _) | .serve _ => checked = true
  | _ => True

def learn (checked : Bool) : (e : Effect) → e.Answer → Bool
  | .authenticated, ok => checked || ok
  | _, _ => checked

def authority (r : Request) : Protocol Bool Effect.Answer := ⟨r.allows, learn⟩

-- A routine that keeps to its request, once the cookie was checked.
def Safe {α : Type} (r : Request) (x : Handler α) : Prop :=
  Follows (authority r) (fun checked _ => checked = true) true x

section Rules

variable {r : Request} {α β : Type} {x : Handler α} {f : α → Handler β} {k : Handler β}

theorem Safe.ret {a : α} : Safe r (Program.ret a) := rfl

theorem Safe.pure {a : α} : Safe r (Pure.pure a) := rfl

theorem Safe.throw {e : Error} : Safe (α := α) r (MonadExcept.throw e) := rfl

theorem Safe.bind (hx : Safe r x) (hf : ∀ a, Safe r (f a)) : Safe r (x >>= f) :=
  Follows.bind hx (fun _ _ h => h) fun _ a h => by
    cases h
    exact hf a

theorem learn_true (e : Effect) (a : e.Answer) : learn true e a = true := by
  cases e <;> rfl

theorem Safe.await {e : Effect} {k : e.Answer → Handler β} (he : r.allows true e) (hk : ∀ a, Safe r (k a)) :
    Safe r (Handle.await e >>= k) :=
  Follows.query he fun a => by
    change Follows _ _ (learn true e a) (k a)
    rw [learn_true]
    exact hk a

theorem Safe.refuse {c : Prop} [Decidable c] {e : Error} (hk : ¬c → Safe r k) :
    Safe r (Program.refuse c e >>= fun _ => k) := Follows.refuse (fun _ => rfl) hk

theorem Safe.originRequired (hk : r.header "Origin" = some publicOrigin → Safe r k) :
    Safe r (originRequired r >>= fun _ => k) := Safe.refuse fun h => hk (not_not.mp h)

theorem Safe.lift {out : Except Error α} : Safe r (Handle.lift out) := by
  cases out <;> rfl

theorem Safe.catches {handler : Error → Handler α} (hx : Safe r x) (hh : ∀ e, Safe r (handler e)) :
    Safe r (tryCatch x handler) :=
  Follows.catches hx (fun _ _ h => h) fun _ e h => by
    cases h
    exact hh e

theorem Safe.guarded {kinds : List Error} {out : Error} (hx : Safe r x) : Safe r (Handle.guarded kinds out x) :=
  hx.catches fun _ => rfl

theorem Safe.object {v : Json} : Safe r (Handle.object v) := by
  cases v <;> rfl

theorem Safe.member {data : Json} {key : String} : Safe r (Handle.member data key) := by
  unfold Handle.member
  split <;> rfl

theorem Safe.call {c : Call} (hc : r.permits c) : Safe r (Handle.call c) :=
  Safe.await ⟨rfl, hc⟩ fun _ => Safe.lift

end Rules

section Calls

variable {r : Request} {c : Call}

theorem permits_read (target : String) (hmethod : c.method = .get) (htarget : c.target = target)
    (hplain : plain target = true) (hallowed : allowlisted target = true) : r.permits c := by
  subst htarget
  unfold Request.permits
  rw [if_neg (by simp [Call.mutates, hmethod]), Call.path_of_plain hplain]
  exact hallowed

theorem permits_mutation (m : Method) {target back : String} {sid : Word}
    (horigin : r.header "Origin" = some publicOrigin) (hmethod : c.method = m) (htarget : c.target = target)
    (hin : (m, back) ∈ mutations) (hplain : plain back = true) (hroute : sessionRoute back target = some sid) :
    r.permits c := by
  subst hmethod htarget
  have hplain : plain c.target = true := by
    rw [sessionRoute_spec hroute]
    exact plain_sessionPath hplain
  unfold Request.permits
  split
  · refine ⟨?_, horigin⟩
    unfold Call.mutation
    rw [Call.path_of_plain hplain, Bool.or_eq_true, List.any_eq_true]
    exact Or.inr ⟨(c.method, back), hin, by simp [hroute]⟩
  · rename_i hmutates
    simp only [mutations, List.mem_cons, Prod.mk.injEq, List.not_mem_nil, or_false] at hin
    simp only [Call.mutates, decide_eq_true_eq, not_and, not_not] at hmutates
    rcases hin with ⟨hm, -⟩ | ⟨hm, -⟩ | ⟨hm, -⟩ | ⟨hm, -⟩ <;> simp [hm] at hmutates

theorem permits_post (horigin : r.header "Origin" = some publicOrigin) (hmethod : c.method = .post)
    (htarget : c.target = "/api/upload" ∨ c.target = "/api/sessions") : r.permits c := by
  have hplain : plain c.target = true := by
    rcases htarget with h | h <;> rw [h] <;> decide
  unfold Request.permits
  rw [if_pos (by simp [Call.mutates, hmethod])]
  refine ⟨?_, horigin⟩
  unfold Call.mutation
  rw [Call.path_of_plain hplain, Bool.or_eq_true]
  exact Or.inl (decide_eq_true ⟨hmethod, htarget⟩)

theorem safe_sessionPath {back : String} {sid : Word} (hin : back ∈ safeEnds) : safe (sessionPath sid back) = true := by
  have hback : (back.toList.head?.any wordChar) = false := by
    simp only [safeEnds, List.mem_cons, List.not_mem_nil, or_false] at hin
    rcases hin with rfl | rfl | rfl | rfl | rfl <;> decide
  unfold safe
  rw [Bool.or_eq_true, List.any_eq_true]
  exact Or.inr ⟨back, hin, by rw [sessionRoute_sessionPath sid hback]; rfl⟩

end Calls

section Routines

variable {r : Request} {sign : Project → String} {base : String} {sid : Word}

theorem discover_safe (ports : List Nat) : Safe r (discover ports) := by
  induction ports with
  | nil => exact Safe.throw
  | cons n rest ih =>
      refine Safe.bind (Safe.catches (Safe.bind (Safe.call ?_) fun up => ?_) fun _ => Safe.pure) fun found => ?_
      · exact permits_read "/api/sessions" rfl rfl (by decide) (by decide)
      · split
        · exact Safe.bind Safe.lift fun _ => Safe.pure
        · exact Safe.pure
      · split
        · exact Safe.pure
        · exact ih

theorem backend_safe : Safe r backend := by
  refine Safe.await trivial fun target => ?_
  split
  · exact Safe.pure
  · exact Safe.await trivial fun ports => discover_safe ports

theorem modelCatalog_safe : Safe r modelCatalog := by
  refine Safe.bind backend_safe fun base => Safe.guarded (Safe.bind (Safe.call ?_) fun up => ?_)
  · exact permits_read "/api/llms" rfl rfl (by decide) (by decide)
  · exact Safe.refuse fun _ => Safe.bind Safe.lift fun _ => Safe.lift

theorem jsonBody_safe : Safe r jsonBody := Safe.guarded (Safe.await trivial fun _ => Safe.lift)

theorem changeModel_safe (hroute : sessionRoute "/model" r.path = some sid) : Safe r (changeModel r sid) := by
  refine Safe.originRequired fun horigin => Safe.refuse fun _ => Safe.bind jsonBody_safe fun data => ?_
  split
  · split
    · refine Safe.refuse fun _ => Safe.bind modelCatalog_safe fun catalog => Safe.refuse fun _ =>
        Safe.bind backend_safe fun base => Safe.guarded (Safe.bind (Safe.call ?_) fun up => ?_)
      · exact permits_read (sessionPath sid "/runtime") rfl rfl (plain_sessionPath (by decide))
          (by
            have hsafe : safe (sessionPath sid "/runtime") = true := safe_sessionPath (by decide)
            simp [allowlisted, hsafe])
      · split
        · exact Safe.bind Safe.lift fun _ => Safe.pure
        · refine Safe.bind Safe.lift fun data => Safe.bind Safe.object fun runtime => Safe.refuse fun _ =>
            Safe.bind (Safe.call ?_) fun up => Safe.bind Safe.lift fun _ => Safe.pure
          exact permits_mutation .put horigin rfl rfl (by decide) (by decide) hroute
    · exact Safe.throw
  · exact Safe.throw

theorem abort_safe (hroute : (sessionRoute "/abort" r.path).isSome) : Safe r (abort r) := by
  obtain ⟨sid, hsid⟩ := Option.isSome_iff_exists.mp hroute
  refine Safe.originRequired fun horigin => Safe.refuse fun _ => Safe.await trivial fun body =>
    Safe.bind Safe.lift fun _ => Safe.refuse fun _ => Safe.bind backend_safe fun base =>
      Safe.guarded (Safe.bind (Safe.call ?_) fun up => Safe.bind Safe.lift fun _ => Safe.pure)
  exact permits_mutation .post horigin rfl rfl (by decide) (by decide) hsid

theorem upload_safe : Safe r (upload r) := by
  refine Safe.originRequired fun horigin => Safe.refuse fun _ => Safe.await trivial fun full => Safe.refuse fun _ =>
    Safe.guarded (Safe.guarded (Safe.await trivial fun part => Safe.bind Safe.lift fun part => ?_))
  split
  · exact Safe.throw
  · refine Safe.refuse fun _ => Safe.refuse fun _ => Safe.await trivial fun more => Safe.bind Safe.lift fun _ =>
      Safe.refuse fun _ => Safe.bind backend_safe fun base => Safe.bind (Safe.call ?_) fun up => ?_
    · exact permits_post horigin rfl (Or.inl rfl)
    · split
      · exact Safe.ret
      · exact Safe.bind Safe.lift fun _ => Safe.bind Safe.member fun _ => Safe.bind Safe.member fun _ =>
          Safe.bind Safe.member fun _ => Safe.await trivial fun _ => Safe.pure

theorem projectCatalog_safe : Safe r (projectCatalog sign) := by
  refine Safe.bind backend_safe fun base => Safe.bind (Safe.call ?_) fun up => Safe.refuse fun _ =>
    Safe.bind Safe.lift fun _ => Safe.bind Safe.object fun data => ?_
  · exact permits_read "/api/projects" rfl rfl (by decide) (by decide)
  · split
    · exact Safe.pure
    · exact Safe.pure
    · exact Safe.throw

theorem bindProject_safe (horigin : r.header "Origin" = some publicOrigin) (session : Json) (project : Option Project) :
    Safe r (bindProject base sid session project) := by
  cases project with
  | none => exact Safe.ret
  | some project =>
      have hroute : sessionRoute "/project" (sessionPath sid "/project") = some sid :=
        sessionRoute_sessionPath sid (by decide)
      refine Safe.bind (Safe.call ?_) fun up => ?_
      · exact permits_mutation .put horigin rfl rfl (by decide) (by decide) hroute
      · split
        · exact Safe.ret
        · exact Safe.bind Safe.lift fun _ => Safe.pure

theorem sessionId_safe {session : Json} : Safe r (sessionId session) := by
  unfold sessionId
  split
  · split <;> rfl
  · rfl

theorem findProject_safe (project : Option String) : Safe r (findProject sign project) := by
  cases project with
  | none => exact Safe.ret
  | some pid =>
      refine Safe.bind projectCatalog_safe fun catalog => ?_
      split
      · exact Safe.pure
      · exact Safe.throw

theorem perform_safe (horigin : r.header "Origin" = some publicOrigin) (cookie : Option CookieId) (data : Creation) :
    Safe r (perform sign cookie data) := by
  refine Safe.await trivial fun entry => ?_
  split
  · exact Safe.pure
  · refine Safe.bind backend_safe fun base => Safe.bind (findProject_safe data.projectId) fun project => ?_
    split
    · exact bindProject_safe horigin _ project
    · refine Safe.refuse fun _ => Safe.bind (Safe.call ?_) fun up => ?_
      · exact permits_post horigin rfl (Or.inr rfl)
      · split
        · exact Safe.ret
        · exact Safe.bind Safe.lift fun _ => Safe.bind Safe.object fun session => Safe.bind sessionId_safe fun sid =>
            bindProject_safe horigin session project

theorem createSession_safe : Safe r (createSession r) := by
  refine Safe.originRequired fun horigin => Safe.refuse fun _ => Safe.bind jsonBody_safe fun body =>
    Safe.bind Safe.lift fun data => Safe.await trivial fun found => ?_
  split
  · exact Safe.throw
  · exact Safe.throw
  · exact Safe.await ⟨rfl, horigin⟩ fun _ => Safe.guarded (Safe.await trivial fun _ => Safe.lift)
  · exact Safe.await ⟨rfl, horigin⟩ fun _ => Safe.guarded (Safe.await trivial fun _ => Safe.lift)

theorem attachments_safe (ids : List UploadId) : Safe r (attachments ids) := by
  induction ids with
  | nil => exact Safe.ret
  | cons uid ids ih =>
      refine Safe.await trivial fun entry => ?_
      split
      · exact Safe.throw
      · exact Safe.bind ih fun _ => Safe.pure

theorem submit_safe (hroute : (sessionRoute "/runs" r.path).isSome) : Safe r (submit r) := by
  refine Safe.originRequired fun horigin => Safe.refuse fun _ => Safe.bind jsonBody_safe fun body =>
    Safe.bind Safe.lift fun sub => Safe.bind (attachments_safe sub.uploadIds) fun attachments =>
      Safe.await trivial fun found => ?_
  split
  · exact Safe.throw
  · exact Safe.throw
  · exact Safe.await trivial fun _ => Safe.pure
  · refine Safe.bind backend_safe fun base => Safe.await trivial fun found => ?_
    split
    · exact Safe.throw
    · exact Safe.await trivial fun _ => Safe.pure
    · exact Safe.await ⟨rfl, horigin, hroute⟩ fun _ => Safe.await trivial fun _ => Safe.pure

theorem forwardSubmit_safe {path text : String} {attachments : List Attachment}
    (horigin : r.header "Origin" = some publicOrigin) (hroute : (sessionRoute "/runs" path).isSome) :
    Safe r (forwardSubmit base path text attachments) := by
  obtain ⟨sid, hsid⟩ := Option.isSome_iff_exists.mp hroute
  refine Safe.catches (Safe.bind (Safe.call ?_) fun up => Safe.bind Safe.lift fun _ => Safe.pure) fun e => ?_
  · exact permits_mutation .post horigin rfl rfl (by decide) (by decide) hsid
  · split
    · exact Safe.ret
    · exact Safe.throw

theorem permits_socket {c : Call} (hmethod : c.method = .get) (htarget : c.target = socketPath sid) : r.permits c :=
  permits_read _ hmethod htarget plain_socketPath (by simp [allowlisted, socketRoute_socketPath])

theorem channel_safe : Safe r (channel base sid) := Safe.bind (Safe.call (permits_socket rfl rfl)) fun _ => Safe.pure

theorem runJob_safe {job : Job} (h : r.allows true (.start job)) : Safe r (runJob sign job) := by
  cases job with
  | forward base path text attachments => exact forwardSubmit_safe h.2.1 h.2.2
  | perform cookie data => exact perform_safe h.2 cookie data
  | channel base sid => exact channel_safe

theorem progressGet_safe : Safe r (progressGet base sid) := by
  refine Safe.await trivial fun made => Safe.bind Safe.lift fun made => ?_
  cases made with
  | false => exact Safe.await trivial fun _ => Safe.lift
  | true => exact Safe.await rfl fun _ => Safe.await trivial fun _ => Safe.lift

theorem projects_safe : Safe r (projects sign r) :=
  Safe.refuse fun _ => Safe.refuse fun _ => Safe.bind (Safe.guarded projectCatalog_safe) fun _ => Safe.pure

theorem llms_safe : Safe r (llms r) :=
  Safe.refuse fun _ => Safe.refuse fun _ => Safe.bind modelCatalog_safe fun _ => Safe.pure

theorem logout_safe : Safe r (logout r) := Safe.refuse fun _ => Safe.pure

theorem live_safe : Safe r (live r sid) :=
  Safe.refuse fun _ => Safe.bind (Safe.guarded (Safe.bind backend_safe fun _ => progressGet_safe)) fun _ =>
    Safe.await rfl fun _ => Safe.pure

theorem progress_safe : Safe r (progress r sid) :=
  Safe.refuse fun _ => Safe.bind (Safe.guarded (Safe.bind backend_safe fun _ => progressGet_safe)) fun _ =>
    Safe.await trivial fun _ => Safe.pure

theorem allowed_path {path : String} (h : ¬(safe path = false ∧ socketRoute path = none)) :
    plain path = true ∧ allowlisted path = true := by
  rcases hs : safe path with _ | _
  · obtain ⟨sid, hsid⟩ := Option.ne_none_iff_exists'.mp fun hnone => h ⟨hs, hnone⟩
    refine ⟨?_, by simp [allowlisted, hsid]⟩
    rw [socketRoute_spec hsid]
    exact plain_socketPath
  · refine ⟨?_, by simp [allowlisted, hs]⟩
    simp only [safe, Bool.or_eq_true, decide_eq_true_eq, List.any_eq_true] at hs
    rcases hs with (rfl | rfl) | ⟨back, hback, hroute⟩
    · decide
    · decide
    · obtain ⟨sid, hsid⟩ := Option.isSome_iff_exists.mp hroute
      rw [sessionRoute_spec hsid]
      refine plain_sessionPath ?_
      simp only [safeEnds, List.mem_cons, List.not_mem_nil, or_false] at hback
      rcases hback with rfl | rfl | rfl | rfl | rfl <;> decide

theorem permits_forward {c : Call} (hmethod : c.method = .get ∨ c.method = .head) (htarget : c.target = r.pathQs)
    (hplain : plain r.path = true) (hallowed : allowlisted r.path = true) : r.permits c := by
  unfold Request.permits
  rw [if_neg (by rcases hmethod with h | h <;> simp [Call.mutates, h]), Call.path_pathQs htarget hplain]
  exact hallowed

theorem compact_safe (hplain : plain r.path = true) (hallowed : allowlisted r.path = true) :
    Safe r (compact r base) := by
  refine Safe.guarded (Safe.bind (Safe.call (permits_read r.path rfl rfl hplain hallowed)) fun up => ?_)
  split
  · exact Safe.bind Safe.lift fun _ => Safe.pure
  · exact Safe.bind Safe.lift fun _ => Safe.await trivial fun _ => Safe.bind Safe.lift fun _ =>
      Safe.await trivial fun _ => Safe.pure

theorem webSocket_safe (hplain : plain r.path = true) (hallowed : allowlisted r.path = true) :
    Safe r (webSocket r base) := by
  unfold webSocket
  split
  · exact Safe.throw
  · refine Safe.bind (Safe.catches (Safe.call ?_) fun _ => Safe.throw) fun up => Safe.await rfl fun _ => Safe.pure
    exact permits_forward (Or.inl rfl) rfl hplain hallowed

theorem proxied_safe (hmethod : r.method = .get ∨ r.method = .head) (hplain : plain r.path = true)
    (hallowed : allowlisted r.path = true) : Safe r (proxied r base) :=
  Safe.guarded (Safe.bind (Safe.call (permits_forward hmethod rfl hplain hallowed)) fun _ =>
    Safe.bind Safe.lift fun _ => Safe.pure)

theorem reads_safe : Safe r (reads r) := by
  refine Safe.refuse fun hmethod => Safe.refuse fun _ => ?_
  have hmethod : r.method = .get ∨ r.method = .head := by
    by_cases hget : r.method = .get
    · exact Or.inl hget
    · exact Or.inr (by_contra fun hhead => hmethod ⟨hget, hhead⟩)
  split
  · exact Safe.refuse fun _ => Safe.await trivial fun _ => Safe.bind Safe.lift fun _ => Safe.pure
  · refine Safe.refuse fun _ => ?_
    split
    · exact Safe.await trivial fun _ => Safe.pure
    · split
      · exact live_safe
      · exact progress_safe
      · refine Safe.refuse fun hpath => Safe.bind backend_safe fun base => ?_
        obtain ⟨hplain, hallowed⟩ := allowed_path hpath
        split
        · exact compact_safe hplain hallowed
        · split
          · exact webSocket_safe hplain hallowed
          · exact proxied_safe hmethod hplain hallowed

-- One case for each branch, in the order of the source.
theorem dispatch_safe : Safe r (dispatch sign r) := by
  unfold dispatch
  split
  · exact logout_safe
  split
  · exact Safe.throw
  split
  · rename_i h
    exact submit_safe h.2
  split
  · rename_i h
    exact abort_safe h.2
  split
  · exact upload_safe
  split
  · exact createSession_safe
  split
  · exact projects_safe
  split
  · rename_i hroute
    exact changeModel_safe (Option.filter_eq_some_iff.mp hroute).1
  · split
    · exact llms_safe
    · exact reads_safe

theorem handle_follows : Follows (authority r) (fun _ _ => True) false (handle sign r) := by
  refine Follows.refuse (fun _ => trivial) fun _ => ?_
  split
  · unfold login
    split
    · exact Follows.query trivial fun _ => trivial
    · exact Follows.refuse (fun _ => trivial) fun _ => Follows.query trivial fun _ =>
        Follows.refuse (fun _ => trivial) fun _ => Follows.query trivial fun _ =>
          Follows.refuse (fun _ => trivial) fun _ => Follows.query trivial fun _ => trivial
  · refine Follows.query trivial fun ok => Follows.refuse (fun _ => trivial) fun hok => ?_
    change Follows _ _ ok _
    rw [Bool.eq_true_of_not_eq_false hok]
    exact dispatch_safe.weaken fun _ _ _ => trivial

end Routines

end GaHub.Remote.Handle
