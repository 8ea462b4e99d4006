import GaHub.Lib.Machine
import GaHub.Remote.Forwards
import GaHub.Remote.Posts

namespace GaHub.Remote

open Lib

structure Gateway (δ : Type) where
  clock : Clock := {}
  submits : Submits δ := {}
  creates : Creates := {}
  deriving DecidableEq

inductive GatewayAction where
  | login
  | pass (seconds : ℚ)
  | submit (a : SubmitAction)
  | create (a : CreateAction)
  deriving DecidableEq

variable {δ : Type} [DecidableEq δ]

def Gateway.next (fingerprint : String × List UploadId → δ) (g : Gateway δ) : GatewayAction → Option (Gateway δ)
  | .login => some { g with clock := g.clock.login }
  | .pass seconds => some { g with clock := g.clock.pass seconds }
  | .submit a => (g.submits.next fingerprint g.clock a).map fun submits => { g with submits }
  | .create a => (g.creates.next g.clock a).map fun creates => { g with creates }

def gateway (fingerprint : String × List UploadId → δ) : Machine (Gateway δ) GatewayAction where
  start := {}
  next := Gateway.next fingerprint

def Gateway.timely (g : Gateway δ) : GatewayAction → Bool
  | .submit a => g.submits.timely g.clock a
  | .create a => g.creates.timely g.clock a
  | _ => true

variable {fingerprint : String × List UploadId → δ} {g : Gateway δ}

theorem kept_of_reachable (hinj : Function.Injective fingerprint)
    (hg : ((gateway fingerprint).restrict fun g a => g.timely a = true).Reachable g) :
    g.clock.Sound ∧ g.submits.Kept fingerprint g.clock ∧ g.creates.Kept g.clock := by
  refine hg.invariant (P := fun g => g.clock.Sound ∧ g.submits.Kept fingerprint g.clock ∧ g.creates.Kept g.clock)
    ⟨fun login hlogin => absurd hlogin List.not_mem_nil, Submits.Kept.start, Creates.Kept.start⟩ ?_
  intro g a g' ⟨hsound, hsubmits, hcreates⟩ hnext
  obtain ⟨htimely, hnext⟩ := Machine.restrict_next hnext
  cases a with
  | login =>
      cases hnext
      exact ⟨hsound.login, hsubmits.before Clock.before_login, hcreates.before Clock.before_login⟩
  | pass seconds =>
      cases hnext
      have hbefore := g.clock.before_pass seconds
      exact ⟨hsound.pass seconds, hsubmits.before hbefore, hcreates.before hbefore⟩
  | submit a =>
      obtain ⟨submits, hstep, rfl⟩ := Option.map_eq_some_iff.mp hnext
      exact ⟨hsound, hsubmits.next hsound hinj htimely hstep, hcreates⟩
  | create a =>
      obtain ⟨creates, hstep, rfl⟩ := Option.map_eq_some_iff.mp hnext
      exact ⟨hsound, hsubmits, hcreates.next hsound htimely hstep⟩

theorem at_most_once (hinj : Function.Injective fingerprint)
    (hg : ((gateway fingerprint).restrict fun g a => g.timely a = true).Reachable g) :
    (g.submits.tasks.map ForwardTask.key).Nodup ∧
      (∀ r ∈ g.submits.requests, ∀ sub response, r.stage = .answered sub response →
        ∃ task ∈ g.submits.tasks, task.key = r.key sub ∧ task.content = sub.content ∧ task.result = some response) ∧
      (∀ i r sub a g', g.submits.requests[i]? = some r → g.submits.Looks g.clock i r sub a →
        ((gateway fingerprint).restrict fun g a => g.timely a = true).next g (.submit a) = some g' →
        ∀ task ∈ g.submits.tasks, task.key = r.key sub → task.content ≠ sub.content →
          g'.submits.tasks = g.submits.tasks ∧ ∃ r', g'.submits.requests[i]? = some r' ∧ Submits.Refused r') ∧
      (∀ (a b : Nat) post post' entry entry', a < b → g.creates.posts[a]? = some post →
        g.creates.posts[b]? = some post' → g.creates.entries[post.entry]? = some entry →
        g.creates.entries[post'.entry]? = some entry' → entry.key = entry'.key → post.Rejected) := by
  obtain ⟨-, hsubmits, hcreates⟩ := kept_of_reachable hinj hg
  refine ⟨hsubmits.once, ?_, ?_, ?_⟩
  · intro r hr sub response hstage
    have hserves := hsubmits.served r hr
    unfold Serves at hserves
    rwa [hstage] at hserves
  · intro i r sub a g' hi hlooks hnext task htask hkey hother
    obtain ⟨htimely, hnext⟩ := Machine.restrict_next hnext
    obtain ⟨submits, hstep, rfl⟩ := Option.map_eq_some_iff.mp hnext
    exact hsubmits.refuses hinj htimely hstep hi hlooks htask hkey hother
  · intro a b post post' entry entry' hab ha hb he he' hkey
    exact hcreates.ordered a b post post' hab ha hb (place_unique hcreates.once he he' hkey)

def request : Submission := { text := "run", requestId := "0123456789abcdef" }

def other : Submission := { text := "stop", requestId := "0123456789abcdef" }

def creation : Creation := ⟨"0123456789abcdef", none⟩

-- A submission, answered, with the same one and another one after it, and a session whose first POST is rejected.
def promptRun : List GatewayAction :=
  [.login, .pass 1, .submit (.post 0 "/run"), .submit (.body 0 (some request)), .submit (.located 0 (some "b")),
    .submit (.complete 0 (some ⟨200, "ok"⟩)), .submit (.deliver 0), .submit (.post 0 "/run"),
    .submit (.body 1 (some request)), .submit (.deliver 1), .submit (.post 0 "/run"), .submit (.body 2 (some other)),
    .create (.post 0), .create (.body 0 (some creation)), .create (.acquire 0), .create (.located 0 (some "b")),
    .create (.posted 0 (.rejected 500)), .create (.post 0), .create (.body 1 (some creation)), .create (.acquire 1),
    .create (.located 1 (some "b")), .create (.posted 1 .created)]

-- The second request is sent before the cookie expires, and its body arrives after that.
def lateRun : List GatewayAction :=
  [.login, .pass 1, .submit (.post 0 "/run"), .submit (.body 0 (some request)), .submit (.located 0 (some "b")),
    .submit (.complete 0 (some ⟨200, "ok"⟩)), .submit (.deliver 0), .pass 43198, .submit (.post 0 "/run"), .pass 3,
    .submit (.body 1 (some request)), .submit (.located 1 (some "b"))]

theorem at_most_once_prompt : ∃ g : Gateway (String × List UploadId),
    (g.submits.requests.map SubmitRequest.stage = [.answered request ⟨200, "ok"⟩, .answered request ⟨200, "ok"⟩,
        .refused ⟨409, "request_id reused for different content"⟩] ∧
      g.creates.posts.map CreatePost.outcome = [some (.rejected 500), some .created]) ∧
    (g.submits.tasks.map ForwardTask.key).Nodup := by
  have hrun : ((((gateway (id : String × List UploadId → _)).restrict fun g a => g.timely a = true).run {} promptRun).map
      fun g => (g.submits.requests.map SubmitRequest.stage, g.creates.posts.map CreatePost.outcome)) =
      some ([.answered request ⟨200, "ok"⟩, .answered request ⟨200, "ok"⟩,
        .refused ⟨409, "request_id reused for different content"⟩], [some (.rejected 500), some .created]) := by
    decide +kernel
  obtain ⟨g, hg, heq⟩ := Option.map_eq_some_iff.mp hrun
  exact ⟨g, Prod.mk.inj heq, (at_most_once Function.injective_id ⟨promptRun, hg⟩).1⟩

theorem forwarded_twice : ∃ g : Gateway (String × List UploadId), (gateway id).Reachable g ∧
    g.submits.tasks.map ForwardTask.key = [⟨0, "/run", "0123456789abcdef"⟩, ⟨0, "/run", "0123456789abcdef"⟩] := by
  have hrun : ((gateway (id : String × List UploadId → _)).run {} lateRun).map
      (fun g => g.submits.tasks.map ForwardTask.key) =
      some [⟨0, "/run", "0123456789abcdef"⟩, ⟨0, "/run", "0123456789abcdef"⟩] := by
    decide +kernel
  obtain ⟨g, hg, heq⟩ := Option.map_eq_some_iff.mp hrun
  exact ⟨g, ⟨lateRun, hg⟩, heq⟩

end GaHub.Remote
