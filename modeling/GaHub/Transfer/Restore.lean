import GaHub.Transfer
import GaHub.Sessions.Steps

namespace GaHub.Transfer

open Lib Sessions

-- Where `replace_runtime` stands: at the head of `exclusive`, before the swap, in the disposer, before its `finally`.
inductive ReplaceStage where
  | entering
  | swapping
  | disposing (previous : Option RuntimeId)
  | leaving (raised : Option CoordinatorError)
  deriving DecidableEq

inductive RestorePc where
  | checking
  | locating
  | building
  | replacing
  | disposing (refusal : CoordinatorError)
  | reading
  | titling
  | answered (status : Nat)
  | raised
  | cancelled
  deriving DecidableEq

-- `standing` is the runtime others left the session with, `swapped` whether the
-- fresh runtime took its place.
structure Restoring (Content : Type) where
  host : Host Content
  pc : RestorePc := .checking
  factory : Job FactoryStage Bool := .idle
  replace : Job ReplaceStage (Option CoordinatorError) := .idle
  shutdown : Job Unit Bool := .idle
  standing : Option RuntimeId
  swapped : Bool := false

-- How the awaited call, or the lookup on the loop, answers the request.
inductive Answer where
  | returns
  | missing
  | stopping
  | raises
  deriving DecidableEq

inductive RestoreAction where
  | resume (answer : Answer)
  | cancel
  | factory (o : Outcome)
  | replace (o : Outcome)
  | shutdown (o : Outcome)
  | others (co : SessionCoordinator) (rows : List (SessionId × Option FileName))

variable {Content : Type}

section Restore

variable (session : SessionId) (archive log : FileName) (fresh : RuntimeId)

def replaceStage (co : SessionCoordinator) :
    ReplaceStage → Outcome → Option (SessionCoordinator × (ReplaceStage ⊕ Option CoordinatorError))
  | .entering, .returns =>
      match co.reserveControl session "restore" with
      | .error error => some (co, .inr (some error))
      | .ok co => some (co, .inl .swapping)
  | .swapping, .returns =>
      let previous := co.runtimes.get? session
      some ({ co.bumpEpoch session with
        runtimes := co.runtimes.set session fresh
        states := co.states.erase session }, .inl (.disposing previous))
  | .disposing _, .returns => some (co, .inl (.leaving none))
  | .disposing (some _), .raises => some (co, .inl (.leaving (some .external)))
  | .leaving raised, .returns => some (co.leaveControl session "restore", .inr raised)
  | _, _ => none

def shutdownStage (u : Unit) : Unit → Outcome → Option (Unit × (Unit ⊕ Bool))
  | _, .returns => some (u, .inr true)
  | _, .raises => some (u, .inr false)
  | _, _ => none

namespace Restoring

variable (w : Restoring Content)

-- `_session_coordinator(lifecycle)` is resolved before the call is handed over.
def hand : Answer → Option (Restoring Content)
  | .returns => some { w with pc := .replacing, replace := .queued }
  | .stopping => some { w with pc := .disposing .stopped, shutdown := .queued }
  | .raises => some { w with pc := .raised }
  | .missing => none

-- `except (SessionControlBusyError, SessionCoordinatorStoppedError)`
def refused (error : CoordinatorError) : Restoring Content :=
  match error with
  | .controlBusy .. => { w with pc := .disposing error, shutdown := .queued }
  | .stopped => { w with pc := .disposing error, shutdown := .queued }
  | _ => { w with pc := .raised }

def resume (answer : Answer) : Option (Restoring Content) :=
  match w.pc, answer with
  | .checking, .returns =>
      match w.host.rows.get? session with
      | none => some { w with pc := .answered 404 }
      | some _ => some { w with pc := .locating }
  | .locating, .missing => some { w with pc := .answered 404 }
  | .locating, .returns => some { w with pc := .building, factory := .queued }
  | .building, answer =>
      match w.factory with
      | .ended true => w.hand answer
      | .ended false => some { w with pc := .raised }
      | _ => none
  | .replacing, _ =>
      match w.replace with
      | .ended none => some { w with pc := .reading }
      | .ended (some error) => some (w.refused error)
      | _ => none
  | .disposing refusal, _ =>
      match w.shutdown, refusal with
      | .ended true, .controlBusy .. => some { w with pc := .answered 409 }
      | .ended _, _ => some { w with pc := .raised }
      | _, _ => none
  | .reading, .returns => some { w with pc := .titling }
  | .titling, .returns => some { w with pc := .answered 200 }
  | .checking, .raises => some { w with pc := .raised }
  | .locating, .raises => some { w with pc := .raised }
  | .reading, .raises => some { w with pc := .raised }
  | .titling, .raises => some { w with pc := .raised }
  | _, _ => none

-- `CancelledError` is raised where the request waits.
def cancel : Option (Restoring Content) :=
  match w.pc with
  | .locating => some { w with pc := .cancelled }
  | .building => some { w with pc := .cancelled, factory := w.factory.abandon }
  | .replacing => some { w with pc := .cancelled, replace := w.replace.abandon }
  | .disposing _ => some { w with pc := .cancelled, shutdown := w.shutdown.abandon }
  | .reading => some { w with pc := .cancelled }
  | .titling => some { w with pc := .cancelled }
  | _ => none

-- Other requests and threads leave the coordinator and the rows as they like.
def others (co : SessionCoordinator) (rows : List (SessionId × Option FileName)) : Restoring Content :=
  { w with
    host := { w.host with co, rows := .ofList rows }
    standing :=
      if co.runtimes.get? session = w.host.co.runtimes.get? session then w.standing else co.runtimes.get? session }

def next : RestoreAction → Option (Restoring Content)
  | .resume answer => w.resume session answer
  | .cancel => w.cancel
  | .factory o =>
      (w.factory.work .reading (factoryStage (some archive) log session) w.host o).map fun (host, factory) =>
        { w with host, factory }
  | .replace o =>
      (w.replace.work .entering (replaceStage session fresh) w.host.co o).map fun (co, replace) =>
        { w with
          host := { w.host with co }
          replace
          swapped := w.swapped || decide (w.replace = .running .swapping) }
  | .shutdown o => (w.shutdown.work () shutdownStage () o).map fun (_, shutdown) => { w with shutdown }
  | .others co rows => some (w.others session co rows)

end Restoring

def restoreMachine (host : Host Content) : Machine (Restoring Content) RestoreAction where
  start := { host, standing := host.co.runtimes.get? session }
  next w := w.next session archive log fresh

def Restoring.Over (w : Restoring Content) : Prop :=
  (w.pc = .raised ∨ w.pc = .cancelled ∨ ∃ status, w.pc = .answered status) ∧
    w.factory.settled = true ∧ w.replace.settled = true ∧ w.shutdown.settled = true

-- The fresh runtime took its place, or the session has what it had and the fresh runtime, if there is one, is shut down.
def Restoring.Clean (w : Restoring Content) : Prop :=
  w.swapped = true ∨
    (w.host.co.runtimes.get? session = w.standing ∧ (w.factory = .ended true → w.shutdown = .ended true))

-- The two kinds of refusal the request answers by disposing of the fresh runtime.
def disposes : CoordinatorError → Bool
  | .controlBusy .. => true
  | .stopped => true
  | _ => false

-- The session has no run when the swap is admitted, the coordinator is there to be asked, the fresh runtime can be shut
-- down, and the request is not cancelled where nobody else would install or dispose of it.
def restorable (w : Restoring Content) : RestoreAction → Bool
  | .resume answer => !decide (w.pc = .building ∧ answer = .raises)
  | .cancel =>
      match w.pc with
      | .building => !decide (w.factory = .ended true)
      | .replacing => w.swapped || decide (w.replace = .running .entering ∨ w.replace = .running .swapping)
      | .disposing _ => !decide (w.shutdown = .queued)
      | _ => true
  | .factory _ => !decide (w.factory = .running .finishing) || decide (w.pc = .building)
  | .replace _ =>
      !decide (w.replace = .running .entering) ||
        match w.host.co.reserveControl session "restore" with
        | .ok _ => true
        | .error error => disposes error && decide (w.pc = .replacing)
  | .shutdown o => !decide (o = .raises)
  | .others .. => true

inductive Restoring.InHand (w : Restoring Content) : Prop where
  | building (pc : w.pc = .building)
  | queued (pc : w.pc = .replacing) (replace : w.replace = .queued)
  | entering (replace : w.replace = .running .entering)
  | swapping (replace : w.replace = .running .swapping)
  | refused (error : CoordinatorError) (pc : w.pc = .replacing) (replace : w.replace = .ended (some error))
      (handled : disposes error = true)
  | disposing (error : CoordinatorError) (pc : w.pc = .disposing error) (shutdown : w.shutdown = .queued)
  | stopping (shutdown : w.shutdown = .running ())
  | stopped (shutdown : w.shutdown = .ended true)
  | swapped (swapped : w.swapped = true)

structure Restoring.Kept (w : Restoring Content) : Prop where
  standing : w.swapped = false → w.host.co.runtimes.get? session = w.standing
  inHand : w.factory = .ended true → w.InHand

variable {session} {archive log : FileName} {fresh : RuntimeId} {w w' : Restoring Content}

theorem leaveControl_runtimes (co : SessionCoordinator) (operation : String) :
    (co.leaveControl session operation).runtimes = co.runtimes := by
  unfold SessionCoordinator.leaveControl
  split <;> rfl

theorem factoryStage_true {override : Option FileName} {host host' : Host Content} {stage : FactoryStage} {o : Outcome}
    (h : factoryStage override log session host stage o = some (host', .inr true)) : stage = .finishing := by
  unfold factoryStage at h
  split at h
  case h_13 => rfl
  case h_8 =>
    obtain ⟨moved, _, heq⟩ := Option.map_eq_some_iff.mp h
    cases heq
  all_goals grind -ring -linarith

theorem factoryStage_co {override : Option FileName} {host host' : Host Content} {stage : FactoryStage} {o : Outcome}
    {next : FactoryStage ⊕ Bool} (h : factoryStage override log session host stage o = some (host', next)) :
    host'.co = host.co := by
  rcases factoryStage_cases _ _ _ h with rfl | ⟨archive, _, _, hmoved⟩ | ⟨row, bound, _, rfl⟩
  · rfl
  · obtain ⟨content, _, rfl⟩ := Option.map_eq_some_iff.mp hmoved
    rfl
  · rfl

theorem Restoring.InHand.of_eq (h : w.InHand) (hpc : w'.pc = w.pc) (hreplace : w'.replace = w.replace)
    (hshutdown : w'.shutdown = w.shutdown) (hswapped : w'.swapped = w.swapped) : w'.InHand := by
  cases h with
  | building pc => exact .building (hpc.trans pc)
  | queued pc replace => exact .queued (hpc.trans pc) (hreplace.trans replace)
  | entering replace => exact .entering (hreplace.trans replace)
  | swapping replace => exact .swapping (hreplace.trans replace)
  | refused error pc replace handled => exact .refused error (hpc.trans pc) (hreplace.trans replace) handled
  | disposing error pc shutdown => exact .disposing error (hpc.trans pc) (hshutdown.trans shutdown)
  | stopping shutdown => exact .stopping (hshutdown.trans shutdown)
  | stopped shutdown => exact .stopped (hshutdown.trans shutdown)
  | swapped swapped => exact .swapped (hswapped.trans swapped)

-- A request that moves on from a call that is over leaves the fresh runtime with those who do not need the request.
theorem Restoring.InHand.leave (h : w.InHand) (hbuilding : w.pc ≠ .building)
    (hreplacing : w.pc = .replacing → w.replace ≠ .queued)
    (hrefused : w.pc = .replacing → ∀ error, w.replace = .ended (some error) → disposes error = false)
    (hdisposing : ∀ error, w.pc = .disposing error → w.shutdown ≠ .queued) (hreplace : w'.replace = w.replace)
    (hshutdown : w'.shutdown = w.shutdown) (hswapped : w'.swapped = w.swapped) : w'.InHand := by
  cases h with
  | building pc => exact absurd pc hbuilding
  | queued pc replace => exact absurd replace (hreplacing pc)
  | entering replace => exact .entering (hreplace.trans replace)
  | swapping replace => exact .swapping (hreplace.trans replace)
  | refused error pc replace handled => exact absurd handled (by simp [hrefused pc error replace])
  | disposing error pc shutdown => exact absurd shutdown (hdisposing error pc)
  | stopping shutdown => exact .stopping (hshutdown.trans shutdown)
  | stopped shutdown => exact .stopped (hshutdown.trans shutdown)
  | swapped swapped => exact .swapped (hswapped.trans swapped)

theorem Restoring.resume_frame {answer : Answer} (hnext : w.resume session answer = some w') :
    w'.host = w.host ∧ w'.standing = w.standing ∧ w'.swapped = w.swapped := by
  unfold Restoring.resume Restoring.hand Restoring.refused at hnext
  grind -ring -linarith

theorem Restoring.cancel_frame (hnext : w.cancel = some w') :
    w'.host = w.host ∧ w'.standing = w.standing ∧ w'.swapped = w.swapped := by
  unfold Restoring.cancel at hnext
  grind -ring -linarith

theorem Restoring.Kept.resume (h : w.Kept session) {answer : Answer} (hok : restorable session w (.resume answer) = true)
    (hnext : w.resume session answer = some w') : w'.Kept session := by
  obtain ⟨hhost, hstanding, hswapped⟩ := Restoring.resume_frame hnext
  refine ⟨fun hs => by rw [hhost, hstanding]; exact h.standing (hswapped ▸ hs), fun hbuilt => ?_⟩
  cases hpc : w.pc with
  | building =>
      simp only [Restoring.resume, hpc] at hnext
      cases hf : w.factory with
      | ended ok =>
          cases ok with
          | true =>
              simp only [hf, Restoring.hand] at hnext
              cases answer with
              | returns =>
                  cases hnext
                  exact .queued rfl rfl
              | stopping =>
                  cases hnext
                  exact .disposing .stopped rfl rfl
              | raises => simp [restorable, hpc] at hok
              | missing => cases hnext
          | false =>
              simp only [hf] at hnext
              cases hnext
              cases hbuilt
      | idle => simp [hf] at hnext
      | queued => simp [hf] at hnext
      | running stage => simp [hf] at hnext
      | dropped => simp [hf] at hnext
  | replacing =>
      simp only [Restoring.resume, hpc] at hnext
      cases hr : w.replace with
      | ended result =>
          cases result with
          | none =>
              simp only [hr] at hnext
              cases hnext
              exact (h.inHand hbuilt).leave (by simp [hpc]) (by simp [hr]) (by simp [hr]) (by simp [hpc]) hr.symm
                rfl rfl
          | some error =>
              simp only [hr] at hnext
              cases hnext
              cases hd : disposes error with
              | true =>
                  cases error <;> simp only [disposes, reduceCtorEq] at hd <;> exact .disposing _ rfl rfl
              | false =>
                  have hrefused : w.refused error = { w with pc := .raised } := by
                    cases error <;> simp only [disposes, reduceCtorEq] at hd <;> rfl
                  rw [hrefused] at hbuilt ⊢
                  dsimp only at hbuilt
                  refine (h.inHand hbuilt).leave (by simp [hpc]) (by simp [hr]) (fun _ other hother => ?_) (by simp [hpc])
                    rfl rfl rfl
                  cases hr.symm.trans hother
                  exact hd
      | idle => simp [hr] at hnext
      | queued => simp [hr] at hnext
      | running stage => simp [hr] at hnext
      | dropped => simp [hr] at hnext
  | disposing refusal =>
      have hmoved : (∃ ok, w.shutdown = .ended ok) ∧ w'.replace = w.replace ∧ w'.shutdown = w.shutdown ∧
          w'.factory = w.factory := by
        simp only [Restoring.resume, hpc] at hnext
        grind -ring -linarith
      obtain ⟨⟨ok, hs⟩, hreplace, hshutdown, hfactory⟩ := hmoved
      exact (h.inHand (hfactory ▸ hbuilt)).leave (by simp [hpc]) (by simp [hpc]) (by simp [hpc]) (by simp [hs]) hreplace
        hshutdown hswapped
  | checking =>
      have hmoved : w'.replace = w.replace ∧ w'.shutdown = w.shutdown ∧ w'.factory = w.factory := by
        simp only [Restoring.resume, hpc] at hnext
        grind -ring -linarith
      obtain ⟨hreplace, hshutdown, hfactory⟩ := hmoved
      exact (h.inHand (hfactory ▸ hbuilt)).leave (by simp [hpc]) (by simp [hpc]) (by simp [hpc]) (by simp [hpc]) hreplace
        hshutdown hswapped
  | locating =>
      cases answer with
      | returns =>
          simp only [Restoring.resume, hpc] at hnext
          cases hnext
          cases hbuilt
      | missing =>
          simp only [Restoring.resume, hpc] at hnext
          cases hnext
          exact (h.inHand hbuilt).leave (by simp [hpc]) (by simp [hpc]) (by simp [hpc]) (by simp [hpc]) rfl rfl rfl
      | raises =>
          simp only [Restoring.resume, hpc] at hnext
          cases hnext
          exact (h.inHand hbuilt).leave (by simp [hpc]) (by simp [hpc]) (by simp [hpc]) (by simp [hpc]) rfl rfl rfl
      | stopping => simp [Restoring.resume, hpc] at hnext
  | reading =>
      have hmoved : w'.replace = w.replace ∧ w'.shutdown = w.shutdown ∧ w'.factory = w.factory := by
        simp only [Restoring.resume, hpc] at hnext
        grind -ring -linarith
      obtain ⟨hreplace, hshutdown, hfactory⟩ := hmoved
      exact (h.inHand (hfactory ▸ hbuilt)).leave (by simp [hpc]) (by simp [hpc]) (by simp [hpc]) (by simp [hpc]) hreplace
        hshutdown hswapped
  | titling =>
      have hmoved : w'.replace = w.replace ∧ w'.shutdown = w.shutdown ∧ w'.factory = w.factory := by
        simp only [Restoring.resume, hpc] at hnext
        grind -ring -linarith
      obtain ⟨hreplace, hshutdown, hfactory⟩ := hmoved
      exact (h.inHand (hfactory ▸ hbuilt)).leave (by simp [hpc]) (by simp [hpc]) (by simp [hpc]) (by simp [hpc]) hreplace
        hshutdown hswapped
  | answered status => simp [Restoring.resume, hpc] at hnext
  | raised => simp [Restoring.resume, hpc] at hnext
  | cancelled => simp [Restoring.resume, hpc] at hnext

theorem Restoring.Kept.cancel (h : w.Kept session) (hok : restorable session w .cancel = true)
    (hnext : w.cancel = some w') : w'.Kept session := by
  obtain ⟨hhost, hstanding, hswapped⟩ := Restoring.cancel_frame hnext
  refine ⟨fun hs => by rw [hhost, hstanding]; exact h.standing (hswapped ▸ hs), fun hbuilt => ?_⟩
  cases hpc : w.pc with
  | building =>
      simp only [Restoring.cancel, hpc] at hnext
      cases hnext
      simp only [restorable, hpc, Bool.not_eq_true', decide_eq_false_iff_not] at hok
      rcases w.factory.abandon_cases with ⟨_, hdropped⟩ | ⟨_, hsame⟩
      · cases hdropped.symm.trans hbuilt
      · exact absurd (hsame.symm.trans hbuilt) hok
  | replacing =>
      simp only [Restoring.cancel, hpc] at hnext
      cases hnext
      simp only [restorable, hpc, Bool.or_eq_true, decide_eq_true_eq] at hok
      rcases hok with hs | hr | hr
      · exact .swapped hs
      · exact .entering (by simp [hr, Job.abandon])
      · exact .swapping (by simp [hr, Job.abandon])
  | disposing refusal =>
      simp only [Restoring.cancel, hpc] at hnext
      cases hnext
      simp only [restorable, hpc, Bool.not_eq_true', decide_eq_false_iff_not] at hok
      have hsame : w.shutdown.abandon = w.shutdown := by
        rcases w.shutdown.abandon_cases with ⟨hq, _⟩ | ⟨_, hsame⟩
        · exact absurd hq hok
        · exact hsame
      exact (h.inHand hbuilt).leave (by simp [hpc]) (by simp [hpc]) (by simp [hpc]) (fun _ _ => hok) rfl hsame rfl
  | locating =>
      simp only [Restoring.cancel, hpc] at hnext
      cases hnext
      exact (h.inHand hbuilt).leave (by simp [hpc]) (by simp [hpc]) (by simp [hpc]) (by simp [hpc]) rfl rfl rfl
  | reading =>
      simp only [Restoring.cancel, hpc] at hnext
      cases hnext
      exact (h.inHand hbuilt).leave (by simp [hpc]) (by simp [hpc]) (by simp [hpc]) (by simp [hpc]) rfl rfl rfl
  | titling =>
      simp only [Restoring.cancel, hpc] at hnext
      cases hnext
      exact (h.inHand hbuilt).leave (by simp [hpc]) (by simp [hpc]) (by simp [hpc]) (by simp [hpc]) rfl rfl rfl
  | checking => simp [Restoring.cancel, hpc] at hnext
  | answered status => simp [Restoring.cancel, hpc] at hnext
  | raised => simp [Restoring.cancel, hpc] at hnext
  | cancelled => simp [Restoring.cancel, hpc] at hnext

theorem Restoring.Kept.factory (h : w.Kept session) {o : Outcome} (hok : restorable session w (.factory o) = true)
    {host : Host Content} {factory : Job FactoryStage Bool}
    (hwork : w.factory.work .reading (factoryStage (some archive) log session) w.host o = some (host, factory)) :
    ({ w with host, factory } : Restoring Content).Kept session := by
  rcases Job.work_cases hwork with ⟨hf, rfl, rfl⟩ | ⟨stage, stage', hf, hstage, rfl⟩ | ⟨stage, ok, hf, hstage, rfl⟩
  · exact ⟨h.standing, fun hbuilt => by cases hbuilt⟩
  · refine ⟨fun hs => ?_, fun hbuilt => by cases hbuilt⟩
    rw [factoryStage_co hstage]
    exact h.standing hs
  · refine ⟨fun hs => ?_, fun hbuilt => ?_⟩
    · rw [factoryStage_co hstage]
      exact h.standing hs
    · cases hbuilt
      rw [factoryStage_true hstage] at hf
      simp only [restorable, hf, decide_true, Bool.not_true, Bool.false_or, decide_eq_true_eq] at hok
      exact .building hok

-- What a turn of `replace_runtime` does, stage by stage.
inductive ReplaceTurn (session : SessionId) (fresh : RuntimeId) (co : SessionCoordinator) :
    ReplaceStage → SessionCoordinator → (ReplaceStage ⊕ Option CoordinatorError) → Prop where
  | refused {error : CoordinatorError} (h : co.reserveControl session "restore" = .error error) :
      ReplaceTurn session fresh co .entering co (.inr (some error))
  | entered {held : SessionCoordinator} (h : co.reserveControl session "restore" = .ok held) :
      ReplaceTurn session fresh co .entering held (.inl .swapping)
  | swapped {co' : SessionCoordinator} {previous : Option RuntimeId} :
      ReplaceTurn session fresh co .swapping co' (.inl (.disposing previous))
  | disposed {previous : Option RuntimeId} {raised : Option CoordinatorError} :
      ReplaceTurn session fresh co (.disposing previous) co (.inl (.leaving raised))
  | left {co' : SessionCoordinator} {raised : Option CoordinatorError} (h : co'.runtimes = co.runtimes) :
      ReplaceTurn session fresh co (.leaving raised) co' (.inr raised)

theorem replaceStage_turn {co co' : SessionCoordinator} {stage : ReplaceStage} {o : Outcome}
    {next : ReplaceStage ⊕ Option CoordinatorError} (h : replaceStage session fresh co stage o = some (co', next)) :
    ReplaceTurn session fresh co stage co' next := by
  cases stage with
  | entering =>
      cases o with
      | returns =>
          simp only [replaceStage] at h
          cases hreserve : co.reserveControl session "restore" with
          | error error =>
              simp only [hreserve] at h
              cases h
              exact .refused hreserve
          | ok held =>
              simp only [hreserve] at h
              cases h
              exact .entered hreserve
      | raises => cases h
      | declines => cases h
      | takesOver => cases h
  | swapping =>
      cases o <;> cases h
      exact .swapped
  | disposing previous => cases previous <;> cases o <;> cases h <;> exact .disposed
  | leaving raised =>
      cases o <;> cases h
      exact .left (leaveControl_runtimes co "restore")

theorem Restoring.InHand.replace (h : w.InHand) (hentering : w.replace ≠ .running .entering)
    (hswapping : w.replace ≠ .running .swapping) (hended : ∀ error, w.replace ≠ .ended (some error))
    (hqueued : w.replace = .queued → w'.replace = .running .entering) (hpc : w'.pc = w.pc)
    (hshutdown : w'.shutdown = w.shutdown) (hswapped : w'.swapped = w.swapped) : w'.InHand := by
  cases h with
  | building pc => exact .building (hpc.trans pc)
  | queued _ replace => exact .entering (hqueued replace)
  | entering replace => exact absurd replace hentering
  | swapping replace => exact absurd replace hswapping
  | refused error _ replace => exact absurd replace (hended error)
  | disposing error pc shutdown => exact .disposing error (hpc.trans pc) (hshutdown.trans shutdown)
  | stopping shutdown => exact .stopping (hshutdown.trans shutdown)
  | stopped shutdown => exact .stopped (hshutdown.trans shutdown)
  | swapped swapped => exact .swapped (hswapped.trans swapped)

theorem Restoring.Kept.replace (h : w.Kept session) {o : Outcome} (hok : restorable session w (.replace o) = true)
    {co : SessionCoordinator} {replace : Job ReplaceStage (Option CoordinatorError)}
    (hwork : w.replace.work .entering (replaceStage session fresh) w.host.co o = some (co, replace)) :
    ({ w with
        host := { w.host with co }
        replace
        swapped := w.swapped || decide (w.replace = .running .swapping) } : Restoring Content).Kept session := by
  rcases Job.work_cases hwork with ⟨hr, rfl, rfl⟩ | ⟨stage, stage', hr, hstage, rfl⟩ | ⟨stage, result, hr, hstage, rfl⟩
  · refine ⟨fun hs => h.standing (by simpa [hr] using hs), fun hbuilt => ?_⟩
    refine (h.inHand hbuilt).replace (by simp [hr]) (by simp [hr]) (by simp [hr]) (fun hq => ?_) rfl rfl (by simp [hr])
    cases hr.symm.trans hq
    rfl
  · cases replaceStage_turn hstage with
    | entered hreserve =>
        obtain ⟨_, _, _, _, rfl⟩ := reserveControl_ok hreserve
        exact ⟨fun hs => h.standing (by simpa [hr] using hs), fun _ => .swapping rfl⟩
    | swapped => exact ⟨fun hs => by simp [hr] at hs, fun _ => .swapped (by simp [hr])⟩
    | disposed =>
        refine ⟨fun hs => h.standing (by simpa [hr] using hs), fun hbuilt => ?_⟩
        exact (h.inHand hbuilt).replace (by simp [hr]) (by simp [hr]) (by simp [hr]) (by simp [hr]) rfl rfl (by simp [hr])
  · cases replaceStage_turn hstage with
    | refused hreserve =>
        refine ⟨fun hs => h.standing (by simpa [hr] using hs), fun _ => ?_⟩
        simp only [restorable, hr, hreserve, decide_true, Bool.not_true, Bool.false_or, Bool.and_eq_true,
          decide_eq_true_eq] at hok
        exact .refused _ hok.2 rfl hok.1
    | left hkept =>
        refine ⟨fun hs => ?_, fun hbuilt => ?_⟩
        · exact (congrArg (fun runtimes => runtimes.get? session) hkept).trans (h.standing (by simpa [hr] using hs))
        · exact (h.inHand hbuilt).replace (by simp [hr]) (by simp [hr]) (by simp [hr]) (by simp [hr]) rfl rfl (by simp [hr])

theorem Restoring.Kept.shutdown (h : w.Kept session) {o : Outcome} (hok : restorable session w (.shutdown o) = true)
    {u : Unit} {shutdown : Job Unit Bool} (hwork : w.shutdown.work () shutdownStage () o = some (u, shutdown)) :
    ({ w with shutdown } : Restoring Content).Kept session := by
  refine ⟨h.standing, fun hbuilt => ?_⟩
  rcases Job.work_cases hwork with ⟨_, _, rfl⟩ | ⟨stage, stage', _, hstage, rfl⟩ | ⟨stage, ok, _, hstage, rfl⟩
  · exact .stopping rfl
  · cases o <;> cases hstage
  · cases o with
    | returns =>
        cases hstage
        exact .stopped rfl
    | raises => simp [restorable] at hok
    | declines => cases hstage
    | takesOver => cases hstage

theorem Restoring.Kept.next (h : w.Kept session) {a : RestoreAction} (hok : restorable session w a = true)
    (hnext : w.next session archive log fresh a = some w') : w'.Kept session := by
  cases a with
  | resume answer => exact h.resume hok hnext
  | cancel => exact h.cancel hok hnext
  | factory o =>
      obtain ⟨⟨host, factory⟩, hwork, rfl⟩ := Option.map_eq_some_iff.mp hnext
      exact h.factory hok hwork
  | replace o =>
      obtain ⟨⟨co, replace⟩, hwork, rfl⟩ := Option.map_eq_some_iff.mp hnext
      exact h.replace hok hwork
  | shutdown o =>
      obtain ⟨⟨u, shutdown⟩, hwork, rfl⟩ := Option.map_eq_some_iff.mp hnext
      exact h.shutdown hok hwork
  | others co rows =>
      cases hnext
      refine ⟨fun hs => ?_, fun hbuilt => (h.inHand hbuilt).of_eq rfl rfl rfl rfl⟩
      dsimp only [Restoring.others]
      split
      · rename_i hsame
        exact hsame.trans (h.standing hs)
      · rfl

theorem reachable_kept {host : Host Content}
    (hw : ((restoreMachine session archive log fresh host).restrict fun w a => restorable session w a).Reachable w) :
    w.Kept session :=
  hw.invariant ⟨fun _ => rfl, fun hbuilt => by cases hbuilt⟩ fun _ _ _ h hnext =>
    h.next (Machine.restrict_next hnext).1 (Machine.restrict_next hnext).2

theorem Restoring.InHand.over (h : w.InHand) (hover : w.Over) : w.swapped = true ∨ w.shutdown = .ended true := by
  obtain ⟨hpc, _, hreplace, hshutdown⟩ := hover
  cases h with
  | building pc => simp [pc] at hpc
  | queued pc replace => simp [pc] at hpc
  | entering replace => simp [replace, Job.settled] at hreplace
  | swapping replace => simp [replace, Job.settled] at hreplace
  | refused error pc replace handled => simp [pc] at hpc
  | disposing error pc shutdown => simp [pc] at hpc
  | stopping shutdown => simp [shutdown, Job.settled] at hshutdown
  | stopped shutdown => exact .inr shutdown
  | swapped swapped => exact .inl swapped

theorem Restoring.Kept.clean (h : w.Kept session) (hover : w.Over) : w.Clean session := by
  by_cases hs : w.swapped = true
  · exact .inl hs
  · refine .inr ⟨h.standing (by simpa using hs), fun hbuilt => ?_⟩
    exact ((h.inHand hbuilt).over hover).resolve_left hs

end Restore

end GaHub.Transfer
