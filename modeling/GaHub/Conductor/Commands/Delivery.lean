import GaHub.Conductor.Commands.Boots
import GaHub.Lib.Log

namespace GaHub.Conductor

open Lib

def CommandState.final : CommandState → Bool
  | .succeeded | .rejected => true
  | .pending | .sending | .unknown => false

def Note.closes : Note → Bool
  | .suspended _ => true
  | .stored _ state _ => state.final
  | .queried .. | .sent .. | .uncertain _ => false

def Note.sends : Note → Bool
  | .sent .. => true
  | .queried .. | .suspended _ | .uncertain _ | .stored .. => false

-- What a log, newest entry first, may say of the sends of any command.
structure AtMostOnce (log : List Note) : Prop where
  asked : ∀ o l₃ l₂ l₁ b₂ b₁ c₂ c₁, log = l₃ ++ .sent o b₂ c₂ :: (l₂ ++ .sent o b₁ c₁ :: l₁) →
    b₁ = b₂ ∧ .queried o b₂ false ∈ l₂
  persisted : ∀ o b c, .sent o b c ∈ log → ∃ d, c = some d ∧ d.payload.bootId = b
  final : ∀ o l₂ l₁ b c, log = l₂ ++ .sent o b c :: l₁ → ∀ n ∈ l₁, n.operation = o → n.closes = false

def Point.ahead : Point → Bool
  | .sent | .raised _ _ | .replied _ => false
  | .fetched | .admitted | .recovered | .compared | .assigned | .prepared | .saved | .marked | .cleared => true

namespace Hub

variable (h : Hub)

def underWay (points : Point → Bool) (o : OperationId) : Bool :=
  match h.jobs.get? o with
  | some ⟨_, _, .running point _ _⟩ => points point
  | _ => false

-- A step that does not cross a delivery: nothing is suspended that may still be sent, the command loop
-- rejects nothing that is being delivered, and the boot is still the one the command was compared with.
def orderly : CommandAction → Bool
  | .suspend _ => h.pendingCommands.all fun e => !h.underWay Point.ahead e.1
  | .handle _ => h.caught.all fun e =>
      !(decide (e.2.1 = .pending) && e.2.2.definite) || !h.underWay (fun _ => true) e.1
  | .step o _ =>
      match h.jobs.get? o with
      | some ⟨_, _, .running .compared _ payload⟩ =>
          payload.bootId.all (· = "") || decide (payload.bootId = h.process.bootId)
      | _ => true
  | _ => true

end Hub

-- Since the last send, the boot was asked and did not know the command.
def AskedSince (o : OperationId) (b : Option String) : List Note → Prop :=
  Since (fun n => n.sends = true) fun n => n = .queried o b false

structure Past (o : OperationId) (row : Option Command) (notes : List Note) : Prop where
  spaced : Each (fun n older => ∀ q b c, n = .sent q b c → AskedSince o b older) notes
  closed : Each (fun n older => n.sends = true → ∀ m ∈ older, m.closes = false) notes
  bound : ∀ q b c, .sent q b c ∈ notes → (∃ d, c = some d ∧ d.payload.bootId = b) ∧
    ∃ d, row = some d ∧ d.state ≠ .pending ∧ d.payload.prepared.isSome = true ∧ d.payload.bootId = b
  named : ∀ d, row = some d → d.payload.prepared.isSome = true → d.payload.bootId.all (· = "") = false
  suspended : ∀ q, .suspended q ∈ notes → ∃ d, row = some d ∧ d.payload.suspended = true
  final : ∀ q state answered, .stored q state answered ∈ notes → state.final = true →
    ∃ d, row = some d ∧ d.state.final = true

-- What a delivery that has read the row knows of it, from point to point.
def Held (o : OperationId) (bootId : Option String) (row : Option Command) (notes : List Note)
    (payload : CommandPayload) : Point → Prop
  | .fetched | .admitted => ∃ d, row = some d ∧ d.payload = payload
  | .recovered | .compared => (∃ d, row = some d ∧ d.payload = payload) ∧ bootId.isSome = true
  | .assigned => payload.bootId.all (· = "") = false ∧
      ∃ d, row = some d ∧ d.payload.prepared = payload.prepared ∧
        (payload.prepared.isSome = true → d.payload = payload)
  | .prepared => payload.bootId.all (· = "") = false ∧ payload.prepared.isSome = true ∧
      ∃ d, row = some d ∧ d.payload.prepared = none
  | .saved => payload.prepared.isSome = true ∧ ∃ d, row = some d ∧ d.payload = payload
  | .marked => payload.prepared.isSome = true ∧ ∃ d, row = some d ∧ d.payload = payload ∧ d.state ≠ .pending
  | .cleared => (payload.prepared.isSome = true ∧ ∃ d, row = some d ∧ d.payload = payload ∧ d.state ≠ .pending) ∧
      AskedSince o payload.bootId notes
  | .sent | .raised _ _ | .replied _ => row.isSome = true

structure Carried (o : OperationId) (bootId : Option String) (row : Option Command) (notes : List Note)
    (point : Point) (state : CommandState) (payload : CommandPayload) : Prop where
  live : ∀ q stored answered, .stored q stored answered ∈ notes → stored.final = false
  ahead : point.ahead = true → (∀ n ∈ notes, n.closes = false) ∧
    (state ≠ .sending → state ≠ .unknown → ∀ n ∈ notes, n.sends = false)
  held : Held o bootId row notes payload point

structure Orderly (o : OperationId) (bootId : Option String) (v : View) : Prop where
  past : Past o v.row v.notes
  carried : ∀ job point state payload, v.job = some job → job.progress = .running point state payload →
    Carried o bootId v.row v.notes point state payload

section Pasts

variable {o : OperationId} {row : Option Command} {notes : List Note}

theorem Past.noted (h : Past o row notes) {n : Note} (hsends : n.sends = false) (hcloses : n.closes = false) :
    Past o row (n :: notes) where
  spaced := by
    refine ⟨fun q b c hn => ?_, h.spaced⟩
    rw [hn] at hsends
    cases hsends
  closed := ⟨fun hn => (by simp [hsends] at hn), h.closed⟩
  bound q b c hmem := by
    rcases List.mem_cons.mp hmem with rfl | hmem
    · cases hsends
    · exact h.bound q b c hmem
  named := h.named
  suspended q hmem := by
    rcases List.mem_cons.mp hmem with rfl | hmem
    · cases hcloses
    · exact h.suspended q hmem
  final q state answered hmem hfinal := by
    rcases List.mem_cons.mp hmem with rfl | hmem
    · cases hcloses.symm.trans hfinal
    · exact h.final q state answered hmem hfinal

theorem Past.sent (h : Past o row notes) {d : Command} (hrow : row = some d) (hstate : d.state ≠ .pending)
    (hprepared : d.payload.prepared.isSome = true) (hasked : AskedSince o d.payload.bootId notes)
    (hopen : ∀ n ∈ notes, n.closes = false) : Past o row (.sent o d.payload.bootId row :: notes) where
  spaced := by
    refine ⟨fun q b c hn => ?_, h.spaced⟩
    cases hn
    exact hasked
  closed := ⟨fun _ => hopen, h.closed⟩
  bound q b c hmem := by
    rcases List.mem_cons.mp hmem with hsent | hmem
    · cases hsent
      exact ⟨⟨d, hrow, rfl⟩, d, hrow, hstate, hprepared, rfl⟩
    · exact h.bound q b c hmem
  named := h.named
  suspended q hmem := h.suspended q (by simpa using hmem)
  final q state answered hmem := h.final q state answered (by simpa using hmem)

theorem Past.stored (h : Past o row notes) (hrow : row.isSome = true) {state : CommandState}
    (hstate : state ≠ .pending)
    (hlive : state.final = true ∨ ∀ q stored answered, .stored q stored answered ∈ notes → stored.final = false)
    (result : Option CommandResult) (answered : Bool) (now : Time) :
    Past o (row.map (Command.finished state result now)) (.stored o state answered :: notes) where
  spaced := ⟨fun q b c hn => (by cases hn), h.spaced⟩
  closed := ⟨fun hn => (by cases hn), h.closed⟩
  bound q b c hmem := by
    obtain ⟨hpersisted, d, rfl, _, hprepared, hboot⟩ := h.bound q b c (by simpa using hmem)
    exact ⟨hpersisted, d.finished state result now, rfl, hstate, hprepared, hboot⟩
  named d hd := by
    obtain ⟨c, rfl, rfl⟩ := Option.map_eq_some_iff.mp hd
    exact h.named c rfl
  suspended q hmem := by
    obtain ⟨d, rfl, hsuspended⟩ := h.suspended q (by simpa using hmem)
    exact ⟨d.finished state result now, rfl, hsuspended⟩
  final q stored answered' hmem hfinal := by
    obtain ⟨d, rfl⟩ := Option.isSome_iff_exists.mp hrow
    refine ⟨d.finished state result now, rfl, ?_⟩
    rcases hlive with hlive | hlive
    · exact hlive
    · rcases List.mem_cons.mp hmem with hsame | hmem
      · cases hsame
        exact hfinal
      · cases (hlive q stored answered' hmem).symm.trans hfinal

theorem Past.holding (h : Past o row notes) {payload : CommandPayload}
    (hbound : ∀ q b c, .sent q b c ∈ notes → payload.prepared.isSome = true ∧ payload.bootId = b)
    (hnamed : payload.prepared.isSome = true → payload.bootId.all (· = "") = false)
    (hsuspended : ∀ q, .suspended q ∈ notes → payload.suspended = true) :
    Past o (row.map (Command.holding payload)) notes where
  spaced := h.spaced
  closed := h.closed
  bound q b c hmem := by
    obtain ⟨hpersisted, d, rfl, hstate, _⟩ := h.bound q b c hmem
    exact ⟨hpersisted, d.holding payload, rfl, hstate, hbound q b c hmem⟩
  named d hd := by
    obtain ⟨c, rfl, rfl⟩ := Option.map_eq_some_iff.mp hd
    exact hnamed
  suspended q hmem := by
    obtain ⟨d, rfl, _⟩ := h.suspended q hmem
    exact ⟨d.holding payload, rfl, hsuspended q hmem⟩
  final q state answered hmem hfinal := by
    obtain ⟨d, rfl, hd⟩ := h.final q state answered hmem hfinal
    exact ⟨d.holding payload, rfl, hd⟩

theorem Past.suspends (h : Past o row notes) {d : Command} (hrow : row = some d)
    (hsuspended : d.payload.suspended = true) : Past o row (.suspended o :: notes) where
  spaced := ⟨fun q b c hn => (by cases hn), h.spaced⟩
  closed := ⟨fun hn => (by cases hn), h.closed⟩
  bound q b c hmem := h.bound q b c (by simpa using hmem)
  named := h.named
  suspended q _ := ⟨d, hrow, hsuspended⟩
  final q state answered hmem := h.final q state answered (by simpa using hmem)

theorem Past.created (h : Past o none notes) {c : Command} (hnew : c.payload.prepared = none) :
    Past o (some c) notes where
  spaced := h.spaced
  closed := h.closed
  bound q b c' hmem := by
    obtain ⟨_, d, hd, _⟩ := h.bound q b c' hmem
    cases hd
  named d hd hprepared := by
    cases hd
    simp [hnew] at hprepared
  suspended q hmem := by
    obtain ⟨d, hd, _⟩ := h.suspended q hmem
    cases hd
  final q state answered hmem hfinal := by
    obtain ⟨d, hd, _⟩ := h.final q state answered hmem hfinal
    cases hd

theorem Past.open (h : Past o row notes) {d : Command} (hrow : row = some d) (hstate : d.state.final = false)
    (hfree : d.payload.suspended = false) : ∀ n ∈ notes, n.closes = false := by
  intro n hn
  cases n with
  | suspended q =>
      obtain ⟨d', hd', hsuspended⟩ := h.suspended q hn
      cases hrow.symm.trans hd'
      simp [hfree] at hsuspended
  | stored q state answered =>
      by_contra hfinal
      obtain ⟨d', hd', hd⟩ := h.final q state answered hn (by simpa [Note.closes] using hfinal)
      cases hrow.symm.trans hd'
      simp [hstate] at hd
  | queried _ _ _ | sent _ _ _ | uncertain _ => rfl

theorem Past.unsent (h : Past o row notes)
    (hrow : ∀ d, row = some d → d.state = .pending ∨ d.payload.prepared = none) : ∀ n ∈ notes, n.sends = false := by
  intro n hn
  cases n with
  | sent q b c =>
      obtain ⟨_, d, hd, hstate, hprepared, _⟩ := h.bound q b c hn
      rcases hrow d hd with hd | hd
      · exact absurd hd hstate
      · simp [hd] at hprepared
  | queried _ _ _ | suspended _ | uncertain _ | stored _ _ _ => rfl

end Pasts

section Carries

variable {o : OperationId} {bootId : Option String} {row : Option Command} {notes : List Note} {point : Point}
  {state : CommandState} {payload : CommandPayload}

theorem Held.row_isSome (h : Held o bootId row notes payload point) : row.isSome = true := by
  cases point with
  | fetched | admitted =>
      obtain ⟨d, rfl, _⟩ := h
      rfl
  | recovered | compared =>
      obtain ⟨⟨d, rfl, _⟩, _⟩ := h
      rfl
  | assigned | saved | marked =>
      obtain ⟨_, d, rfl, _⟩ := h
      rfl
  | prepared =>
      obtain ⟨_, _, d, rfl, _⟩ := h
      rfl
  | cleared =>
      obtain ⟨⟨_, d, rfl, _⟩, _⟩ := h
      rfl
  | sent | raised _ _ | replied _ => exact h

theorem live_cons {n : Note} (h : ∀ q stored answered, .stored q stored answered ∈ notes → stored.final = false)
    (hn : ∀ q stored answered, n = .stored q stored answered → stored.final = false) :
    ∀ q stored answered, .stored q stored answered ∈ n :: notes → stored.final = false := by
  intro q stored answered hmem
  rcases List.mem_cons.mp hmem with hsame | hmem
  · exact hn q stored answered hsame.symm
  · exact h q stored answered hmem

theorem Carried.noted (h : Carried o bootId row notes point state payload) {n : Note} (hsends : n.sends = false)
    (hcloses : n.closes = false) {row' : Option Command} {point' : Point} (hpoint : point.ahead = true)
    (hheld : Held o bootId row' (n :: notes) payload point') :
    Carried o bootId row' (n :: notes) point' state payload := by
  have hahead := h.ahead hpoint
  refine ⟨live_cons h.live fun q stored answered hn => ?_, fun _ => ⟨?_, fun hsending hunknown => ?_⟩, hheld⟩
  · rw [hn] at hcloses
    exact hcloses
  · exact List.forall_mem_cons.mpr ⟨hcloses, hahead.1⟩
  · exact List.forall_mem_cons.mpr ⟨hsends, hahead.2 hsending hunknown⟩

theorem Carried.went {h : Hub} (hb : Booted h) {point' : Point}
    (hc : Carried o h.process.bootId row notes point state payload) (hleads : h.Leads state payload point point') :
    Carried o h.process.bootId row notes point' state payload := by
  refine ⟨hc.live, fun hahead => hc.ahead ?_, ?_⟩
  · cases point with
    | sent =>
        cases point' with
        | raised _ _ | replied _ => cases hahead
        | _ => cases hleads
    | raised _ _ | replied _ => cases hleads
    | _ => rfl
  · have hheld := hc.held
    cases point with
    | fetched =>
        cases point' with
        | admitted => exact hheld
        | _ => cases hleads
    | admitted =>
        cases point' with
        | recovered => exact ⟨hheld, hb.ready hleads⟩
        | _ => cases hleads
    | recovered =>
        cases point' with
        | compared => exact hheld
        | _ => cases hleads
    | assigned =>
        cases point' with
        | saved =>
            obtain ⟨_, d, hrow, _, hsame⟩ := hheld
            exact ⟨hleads, d, hrow, hsame hleads⟩
        | _ => cases hleads
    | marked =>
        cases point' with
        | cleared =>
            have hunsent := (hc.ahead rfl).2 hleads.1 hleads.2
            exact ⟨hheld, Since.of_none fun n hn => by simp [hunsent n hn]⟩
        | _ => cases hleads
    | sent =>
        cases point' with
        | raised _ _ | replied _ => exact hheld
        | _ => cases hleads
    | compared | prepared | saved | cleared | raised _ _ | replied _ => cases point' <;> cases hleads

end Carries

section Shifts

variable {o : OperationId} {h : Hub} {a : CommandAction} {v : View} {bootId : Option String}

theorem Orderly.running {job : Job} {point : Point} {state : CommandState} {payload : CommandPayload}
    (hpast : Past o v.row v.notes) (hc : Carried o bootId v.row v.notes point state payload) :
    Orderly o bootId (v.moved job (.running point state payload)) := by
  refine ⟨hpast, fun job' point' state' payload' hjob hprogress => ?_⟩
  cases hjob
  cases hprogress
  exact hc

theorem Orderly.ended {job : Job} {outcome : Option Raised} (hpast : Past o v.row v.notes) :
    Orderly o bootId (v.moved job (.ended outcome)) := by
  refine ⟨hpast, fun job' point' state' payload' hjob hprogress => ?_⟩
  cases hjob
  cases hprogress

theorem Orderly.idle (hpast : Past o v.row v.notes) : Orderly o bootId { v with job := none } := by
  refine ⟨hpast, fun job' point' state' payload' hjob => ?_⟩
  cases hjob

theorem underWay_running {points : Point → Bool} {job : Job} {point : Point} {state : CommandState}
    {payload : CommandPayload} (hjob : h.jobs.get? o = some job) (hprogress : job.progress = .running point state payload) :
    h.underWay points o = points point := by
  obtain ⟨_, _, progress⟩ := job
  cases hprogress
  simp only [Hub.underWay, hjob]

theorem mem_pendingCommands {c : Command} (hrow : h.row o = some c)
    (hopen : c.state ≠ .succeeded ∧ c.state ≠ .rejected) : (o, c) ∈ h.pendingCommands := by
  refine (List.perm_insertionSort _ _).mem_iff.mpr (List.mem_filter.mpr ⟨Dict.mem_entries_iff.mpr hrow, ?_⟩)
  cases hstate : c.state with
  | pending | sending | unknown => simp
  | succeeded => exact absurd hstate hopen.1
  | rejected => exact absurd hstate hopen.2

theorem Shift.orderly (hshift : Shift o h a v) (hb : Booted h) (hok : h.orderly a = true)
    (hrows : ∀ e, h.caught = some e → (h.row e.1).isSome = true) (ho : Orderly o h.process.bootId (h.view o)) :
    Orderly o h.process.bootId v := by
  have hpast : Past o (h.row o) (h.notes o) := ho.past
  have hcarried : ∀ {job : Job} {point : Point} {state : CommandState} {payload : CommandPayload},
      h.jobs.get? o = some job → job.progress = .running point state payload →
        Carried o h.process.bootId (h.row o) (h.notes o) point state payload :=
    fun hjob hprogress => ho.carried _ _ _ _ hjob hprogress
  cases hshift with
  | still => exact ho
  | @created c hnone _ hnew =>
      have hunprepared : c.payload.prepared = none := by
        rcases hnew with hnew | hnew <;> simp only [CommandPayload.untouched, Bool.and_eq_true] at hnew <;> simp_all
      have hempty : Past o none (h.notes o) := hnone ▸ hpast
      refine ⟨hempty.created hunprepared, fun job point state payload hjob hprogress => ?_⟩
      have hsome := (hcarried hjob hprogress).held.row_isSome
      simp [hnone] at hsome
  | entered _ hentered _ =>
      refine ⟨hpast, fun job point state payload hjob hprogress => ?_⟩
      cases hjob
      cases hentered.symm.trans hprogress
  | @fetched job c _ _ hrow hopen hfree =>
      have hstate : c.state.final = false := by
        cases hc : c.state with
        | pending | sending | unknown => rfl
        | succeeded => exact absurd hc hopen.1
        | rejected => exact absurd hc hopen.2
      have hall := hpast.open hrow hstate hfree
      refine .running hpast ⟨fun q stored answered hmem => hall _ hmem, fun _ => ⟨hall, fun hsending hunknown => ?_⟩,
        c, hrow, rfl⟩
      refine hpast.unsent fun d hd => Or.inl ?_
      cases hrow.symm.trans hd
      cases hc : c.state with
      | pending => rfl
      | sending => exact absurd hc hsending
      | unknown => exact absurd hc hunknown
      | succeeded => exact absurd hc hopen.1
      | rejected => exact absurd hc hopen.2
  | ended _ => exact .ended hpast
  | went hjob hprogress hleads => exact .running hpast ((hcarried hjob hprogress).went hb hleads)
  | @assigned job state payload answers haction hjob hprogress =>
      have hc := hcarried hjob hprogress
      obtain ⟨⟨d, hrow, rfl⟩, hsome⟩ := hc.held
      have hsame : d.payload.bootId.all (· = "") = true ∨ d.payload.bootId = h.process.bootId := by
        obtain ⟨_, _, progress⟩ := job
        cases hprogress
        simpa only [haction, Hub.orderly, hjob, Bool.or_eq_true, decide_eq_true_eq] using hok
      refine .running hpast ⟨hc.live, fun _ => hc.ahead rfl, hb.unnamed hsome, d, hrow, rfl, fun hprepared => ?_⟩
      rcases hsame with hempty | hsame
      · simp [hpast.named d hrow hprepared] at hempty
      · rw [← hsame]
  | @prepared job state payload payload' hjob hprogress hfirst hprepares =>
      have hc := hcarried hjob hprogress
      obtain ⟨hnamed, d, hrow, hprepared, _⟩ := hc.held
      exact .running hpast ⟨hc.live, fun _ => hc.ahead rfl, hprepares.bootId ▸ hnamed, hprepares.prepared, d, hrow,
        hprepared.trans hfirst⟩
  | @saved job state payload hjob hprogress =>
      have hc := hcarried hjob hprogress
      obtain ⟨hnamed, hprepared, d, hrow, hnone⟩ := hc.held
      have hunsent : ∀ n ∈ h.notes o, n.sends = false := by
        refine hpast.unsent fun d' hd' => Or.inr ?_
        cases hrow.symm.trans hd'
        exact hnone
      refine .running (hpast.holding (fun q b c hmem => ?_) (fun _ => hnamed) fun q hmem => ?_)
        ⟨hc.live, fun _ => hc.ahead rfl, hprepared, d.holding payload, by simp [View.holding, Hub.view, hrow], rfl⟩
      · cases hunsent _ hmem
      · cases (hc.ahead rfl).1 _ hmem
  | @marked job state payload now hjob hprogress =>
      have hc := hcarried hjob hprogress
      obtain ⟨hprepared, d, hrow, rfl⟩ := hc.held
      refine .running (hpast.stored hc.held.row_isSome (by decide) (Or.inr hc.live) ..) ?_
      refine hc.noted rfl rfl rfl ⟨hprepared, d.finished .sending none now, by simp [View.stored, Hub.view, hrow], rfl, ?_⟩
      intro hpending
      cases hpending
  | @queried job state payload receipt point hjob hprogress hpoint =>
      have hc := hcarried hjob hprogress
      refine .running (hpast.noted rfl rfl) (hc.noted rfl rfl rfl ?_)
      rcases hpoint with ⟨rfl, hboot, hunknown⟩ | ⟨reply, rfl⟩ | ⟨error, known, rfl, _⟩
      · rw [hboot, hunknown]
        exact ⟨hc.held, Since.cons_good rfl (by simp [Note.sends])⟩
      · exact hc.held.row_isSome
      · exact hc.held.row_isSome
  | unanswered _ _ hjob hprogress _ =>
      have hc := hcarried hjob hprogress
      refine .running hpast ⟨hc.live, fun hahead => ?_, hc.held.row_isSome⟩
      cases hahead
  | @sent job state payload hjob hprogress =>
      have hc := hcarried hjob hprogress
      obtain ⟨⟨hprepared, d, hrow, rfl, hstate⟩, hasked⟩ := hc.held
      refine .running (hpast.sent hrow hstate hprepared hasked (hc.ahead rfl).1) ⟨?_, fun hahead => ?_, hc.held.row_isSome⟩
      · exact live_cons hc.live fun q stored answered hn => by cases hn
      · cases hahead
  | rejected hjob hprogress _ =>
      exact .ended (hpast.stored (hcarried hjob hprogress).held.row_isSome (by decide) (Or.inl rfl) ..)
  | outdated hjob hprogress _ | uncertain hjob hprogress =>
      have hc := hcarried hjob hprogress
      exact .ended ((hpast.stored hc.held.row_isSome (by decide) (Or.inr hc.live) ..).noted rfl rfl)
  | refused hjob hprogress _ | delivered hjob hprogress =>
      exact .ended (hpast.stored (hcarried hjob hprogress).held.row_isSome (by decide) (Or.inl rfl) ..)
  | left _ _ | crashed => exact .idle hpast
  | @handled f result now haction hcaught hdefinite =>
      refine ⟨hpast.stored (hrows _ hcaught) (by decide) (Or.inl rfl) .., fun job point state payload hjob hprogress => ?_⟩
      have hbusy := @underWay_running o h (fun _ => true) job point state payload hjob hprogress
      simp [haction, Hub.orderly, hcaught, hdefinite, hbusy] at hok
  | @suspended c result now haction hrow hopen =>
      have hheld : Past o ((h.row o).map (Command.holding { c.payload with suspended := true })) (h.notes o) := by
        refine hpast.holding (fun q b c' hmem => ?_) (hpast.named c hrow) fun _ _ => rfl
        obtain ⟨_, d, hd, _, hprepared, hboot⟩ := hpast.bound q b c' hmem
        cases hrow.symm.trans hd
        exact ⟨hprepared, hboot⟩
      have hbehind : ∀ {job : Job} {point : Point} {state : CommandState} {payload : CommandPayload},
          h.jobs.get? o = some job → job.progress = .running point state payload → point.ahead = false := by
        intro job point state payload hjob hprogress
        simp only [haction, Hub.orderly, List.all_eq_true] at hok
        have hfree := hok (o, c) (mem_pendingCommands hrow hopen)
        rw [underWay_running hjob hprogress] at hfree
        simpa using hfree
      -- a delivery that has sent the command already still ends
      have hlive : ∀ q stored answered, .stored q stored answered ∈ h.notes o → stored.final = false := by
        intro q stored answered hmem
        by_contra hfinal
        obtain ⟨d, hd, hstate⟩ := hpast.final q stored answered hmem (by simpa using hfinal)
        cases hrow.symm.trans hd
        cases hc : c.state <;> simp_all [CommandState.final]
      have hsome : ((h.row o).map (Command.holding { c.payload with suspended := true })).isSome = true := by
        simp [hrow]
      have hafter := @Past.stored o _ _ hheld hsome .unknown (by decide) (Or.inr hlive) (some result) false now
      refine ⟨hafter.suspends (d := (c.holding { c.payload with suspended := true }).finished .unknown (some result) now)
        (by simp [hrow]) rfl, fun job point state payload hjob hprogress => ?_⟩
      have hpoint := hbehind hjob hprogress
      refine ⟨?_, fun hahead => ?_, ?_⟩
      · refine live_cons (live_cons hlive fun q stored answered hn => ?_) fun q stored answered hn => ?_
        · cases hn
          rfl
        · cases hn
      · cases hpoint.symm.trans hahead
      · cases point with
        | sent | raised _ _ | replied _ => simp [Held, View.noted, View.stored, View.holding, Hub.view, hrow]
        | _ => cases hpoint

theorem Orderly.rebooted {bootId' : Option String} (ho : Orderly o bootId v)
    (hsome : v.job.isSome = true → bootId.isSome = true → bootId'.isSome = true) : Orderly o bootId' v := by
  refine ⟨ho.past, fun job point state payload hjob hprogress => ?_⟩
  have hc := ho.carried job point state payload hjob hprogress
  refine ⟨hc.live, hc.ahead, ?_⟩
  have hheld := hc.held
  cases point with
  | recovered | compared => exact ⟨hheld.1, hsome (by simp [hjob]) hheld.2⟩
  | _ => exact hheld

theorem Turn.someBoot {h' : Hub} (hturn : Turn h h') (hjob : (h'.jobs.get? o).isSome = true)
    (hsome : h.process.bootId.isSome = true) : h'.process.bootId.isSome = true := by
  cases hturn with
  | same hboot _ _ _ | ready hboot _ _ _ | rebooted hboot _ _ _ _ _ => rwa [hboot]
  | learned hboot _ _ _ _ => rw [hboot]; rfl
  | crashed _ _ _ _ hjobs =>
      rw [hjobs, Dict.get?_empty] at hjob
      cases hjob

end Shifts

structure Hub.Listed (h : Hub) : Prop where
  listed : ∀ e ∈ h.listed, (h.row e.1).isSome = true
  jobs : ∀ o job, h.jobs.get? o = some job → job.listed.isSome = true → (h.row o).isSome = true
  caught : ∀ e, h.caught = some e → (h.row e.1).isSome = true

section Lists

variable {h h' : Hub} {a : CommandAction} {o : OperationId}

theorem Shift.listed {v : View} (hshift : Shift o h a v) (hl : h.Listed) :
    ∀ job, v.job = some job → job.listed.isSome = true → (h.row o).isSome = true := by
  intro job hjob hlisted
  cases hshift with
  | still | created _ _ _ | handled _ _ _ | suspended _ _ _ => exact hl.jobs o job hjob hlisted
  | entered _ _ hcalled =>
      cases hjob
      obtain ⟨c, hc⟩ := hcalled hlisted
      exact hl.listed (o, c) hc
  | left _ _ | crashed => cases hjob
  | fetched hold _ _ _ _ | ended hold | went hold _ _ | assigned _ hold _ | prepared hold _ _ _ | saved hold _
  | marked hold _ | queried hold _ _ | unanswered _ _ hold _ _ | sent hold _ | rejected hold _ _ | outdated hold _ _
  | uncertain hold _ | refused hold _ _ | delivered hold _ =>
      cases hjob
      exact hl.jobs o _ hold hlisted

theorem pendingCommands_row {e : OperationId × Command} (he : e ∈ h.pendingCommands) : h.row e.1 = some e.2 :=
  Dict.mem_entries_iff.mp (List.mem_filter.mp ((List.perm_insertionSort _ _).mem_iff.mp he)).1

theorem next_listed (hnext : h.next a = some h') :
    (∀ e ∈ h'.listed, e ∈ h.listed ∨ h.row e.1 = some e.2) ∧
      ∀ e, h'.caught = some e → h.caught = some e ∨ ∃ job, h.jobs.get? e.1 = some job ∧ job.listed.isSome = true := by
  have hsame : ∀ {g : Hub}, g.listed = h.listed → g.caught = h.caught →
      (∀ e ∈ g.listed, e ∈ h.listed ∨ h.row e.1 = some e.2) ∧
        ∀ e, g.caught = some e → h.caught = some e ∨ ∃ job, h.jobs.get? e.1 = some job ∧ job.listed.isSome = true :=
    fun hlisted hcaught => ⟨fun e he => Or.inl (hlisted ▸ he), fun e he => Or.inl (hcaught ▸ he)⟩
  cases a with
  | submit operation intent fresh now fault =>
      simp only [Hub.next] at hnext
      split at hnext <;> cases hnext
      simp only [Hub.submit]
      split
      · exact hsame rfl rfl
      · split <;> exact hsame rfl rfl
  | enter operation =>
      simp only [Hub.next] at hnext
      split at hnext <;> cases hnext
      exact hsame rfl rfl
  | step operation answers =>
      simp only [Hub.next] at hnext
      split at hnext
      · cases hnext
      · rename_i job hjob
        split at hnext
        · split at hnext <;> cases hnext
          exact hsame fetch_beside.listed fetch_beside.caught
        · split at hnext <;> cases hnext
          exact hsame (advance_beside ..).listed (advance_beside ..).caught
        · cases hnext
          unfold Hub.leave
          split
          · rename_i hlisted _
            refine ⟨fun e he => Or.inl he, fun e he => Or.inr ?_⟩
            cases he
            exact ⟨job, hjob, by simp [hlisted]⟩
          · exact hsame rfl rfl
  | list =>
      simp only [Hub.next] at hnext
      split at hnext <;> cases hnext
      exact ⟨fun e he => Or.inr (pendingCommands_row he), fun e he => Or.inl he⟩
  | pick autoAccept =>
      have hskip : ∀ {e₀ : OperationId × Command} {rest : List (OperationId × Command)}, h.listed = e₀ :: rest →
          ∀ e ∈ rest, e ∈ h.listed ∨ h.row e.1 = some e.2 := by
        intro e₀ rest hlisted e he
        rw [hlisted]
        exact Or.inl (List.mem_cons_of_mem e₀ he)
      simp only [Hub.next, Hub.pick] at hnext
      split at hnext
      · cases hnext
      · rename_i operation command rest hlisted
        split at hnext
        · cases hnext
        · split at hnext
          · cases hnext
            refine ⟨fun e he => ?_, fun e he => Or.inl he⟩
            cases he
          · repeat' split at hnext
            all_goals cases hnext
            all_goals exact ⟨hskip hlisted, fun e he => Or.inl he⟩
  | handle now =>
      simp only [Hub.next] at hnext
      split at hnext
      · obtain ⟨e, _, rfl⟩ := Option.map_eq_some_iff.mp hnext
        have hnone : ∀ {g : Hub}, g.listed = h.listed → g.caught = none →
            (∀ e ∈ g.listed, e ∈ h.listed ∨ h.row e.1 = some e.2) ∧
              ∀ e, g.caught = some e → h.caught = some e ∨
                ∃ job, h.jobs.get? e.1 = some job ∧ job.listed.isSome = true := by
          refine fun hlisted hcaught => ⟨fun e he => Or.inl (hlisted ▸ he), fun e he => ?_⟩
          cases hcaught.symm.trans he
        dsimp only
        split
        · have hbeside := @recordRejection_beside _ _ e.1 (.refl { h with caught := none }) e.2.2 now
          exact hnone hbeside.listed hbeside.caught
        · exact hnone rfl rfl
      · cases hnext
  | suspend now =>
      simp only [Hub.next] at hnext
      split at hnext <;> cases hnext
      have hbeside := suspend_beside now h.pendingCommands (.refl h)
      exact hsame hbeside.listed hbeside.caught
  | process action =>
      simp only [Hub.next] at hnext
      split at hnext
      · obtain ⟨p, _, rfl⟩ := Option.map_eq_some_iff.mp hnext
        exact hsame rfl rfl
      · cases hnext
  | ready _ | reboot _ =>
      simp only [Hub.next] at hnext
      split at hnext <;> cases hnext
      exact hsame rfl rfl
  | stop =>
      cases hnext
      exact hsame rfl rfl
  | learn index =>
      simp only [Hub.next] at hnext
      split at hnext
      · cases hnext
      · split at hnext <;> cases hnext
        exact hsame rfl rfl
  | crash active recent =>
      simp only [Hub.next] at hnext
      obtain ⟨p, _, rfl⟩ := Option.map_eq_some_iff.mp hnext
      refine ⟨fun e he => ?_, fun e he => ?_⟩ <;> cases he

theorem Hub.Listed.next (hl : h.Listed) (hnext : h.next a = some h') (hshifts : ∀ o, Shift o h a (h'.view o)) :
    h'.Listed := by
  obtain ⟨hlisted, hcaught⟩ := next_listed hnext
  refine ⟨fun e he => ?_, fun o job hjob hsome => ?_, fun e he => ?_⟩
  · refine (hshifts e.1).row_isSome ?_
    rcases hlisted e he with he | he
    · exact hl.listed e he
    · simp [he]
  · exact (hshifts o).row_isSome ((hshifts o).listed hl job hjob hsome)
  · refine (hshifts e.1).row_isSome ?_
    rcases hcaught e he with he | ⟨job, hjob, hsome⟩
    · exact hl.caught e he
    · exact hl.jobs e.1 job hjob hsome

end Lists

theorem atMostOnce_of_past {h : Hub} (hpast : ∀ o, Past o (h.row o) (h.notes o)) : AtMostOnce h.log := by
  have hown : ∀ {o : OperationId} {l₂ l₁ : List Note} {b : Option String} {c : Option Command},
      h.log = l₂ ++ .sent o b c :: l₁ →
        h.notes o = l₂.filter (fun n => decide (n.operation = o)) ++ .sent o b c ::
          l₁.filter fun n => decide (n.operation = o) := by
    intro o l₂ l₁ b c hlog
    unfold Hub.notes
    rw [hlog, List.filter_append, List.filter_cons_of_pos (by simp [Note.operation])]
  have hmem : ∀ {o : OperationId} {b : Option String} {c : Option Command}, .sent o b c ∈ h.log →
      .sent o b c ∈ h.notes o := fun hlog => List.mem_filter.mpr ⟨hlog, by simp [Note.operation]⟩
  refine ⟨?_, ?_, ?_⟩
  · intro o l₃ l₂ l₁ b₂ b₁ c₂ c₁ hlog
    obtain ⟨_, d₂, hrow₂, _, _, hboot₂⟩ := (hpast o).bound o b₂ c₂ (hmem (by simp [hlog]))
    obtain ⟨_, d₁, hrow₁, _, _, hboot₁⟩ := (hpast o).bound o b₁ c₁ (hmem (by simp [hlog]))
    cases hrow₂.symm.trans hrow₁
    have hasked := (hpast o).spaced.split (hown hlog) o b₂ c₂ rfl
    rw [List.filter_append, List.filter_cons_of_pos (by simp [Note.operation])] at hasked
    obtain ⟨n, hn, rfl⟩ := hasked _ (.sent o b₁ c₁) _ rfl rfl
    exact ⟨hboot₁.symm.trans hboot₂, (List.mem_filter.mp hn).1⟩
  · intro o b c hsent
    exact ((hpast o).bound o b c (hmem hsent)).1
  · intro o l₂ l₁ b c hlog n hn hoperation
    exact (hpast o).closed.split (hown hlog) rfl n (List.mem_filter.mpr ⟨hn, by simp [hoperation]⟩)

def orderlyMachine (maxWorkflows : Nat) : Machine Hub CommandAction :=
  (commandMachine maxWorkflows).restrict fun h a => h.orderly a = true

theorem reachable_orderly {maxWorkflows : Nat} {h : Hub} (hreach : (orderlyMachine maxWorkflows).Reachable h) :
    Settled h.process ∧ Booted h ∧ h.Listed ∧ ∀ o, Orderly o h.process.bootId (h.view o) := by
  refine hreach.invariant (P := fun h => Settled h.process ∧ Booted h ∧ h.Listed ∧
    ∀ o, Orderly o h.process.bootId (h.view o)) ?_ fun h a h' hall hrestrict => ?_
  · refine ⟨settled_start maxWorkflows, booted_start maxWorkflows, ⟨fun e he => ?_, fun o job hjob => ?_, fun e he => ?_⟩,
      fun o => .idle (v := (commandMachine maxWorkflows).start.view o) ?_⟩
    · cases he
    · cases hjob
    · cases he
    · refine ⟨trivial, trivial, fun q b c hmem => ?_, fun d hd => ?_, fun q hmem => ?_,
        fun q state answered hmem => ?_⟩
      · cases hmem
      · cases hd
      · cases hmem
      · cases hmem
  · obtain ⟨hs, hb, hl, ho⟩ := hall
    obtain ⟨hok, hnext⟩ := Machine.restrict_next hrestrict
    obtain ⟨hs', hshifts⟩ := next_shifts hs hnext
    have hturn := next_turn hnext
    refine ⟨hs', hturn.booted hb, hl.next hnext hshifts, fun o => ?_⟩
    exact ((hshifts o).orderly hb hok hl.caught (ho o)).rebooted fun hjob => hturn.someBoot hjob

-- At-most-once delivery, as long as no step crosses a delivery.
theorem delivered_at_most_once {maxWorkflows : Nat} {h : Hub}
    (hreach : (orderlyMachine maxWorkflows).Reachable h) : AtMostOnce h.log := by
  obtain ⟨_, _, _, ho⟩ := reachable_orderly hreach
  exact atMostOnce_of_past fun o => (ho o).past

def greeting : Intent := .ofList [("kind", .str "chat"), ("role", .str "user"), ("msg", .str "hello")]

-- The response to the first delivery is lost; the second has read the row.
def lostRun : List CommandAction :=
  [CommandAction.reboot "b", .learn 0, .ready true, .submit "o" greeting "r" 1 false, .enter "o"] ++
    List.replicate 13 (CommandAction.step "o" {}) ++ [CommandAction.enter "o", .step "o" {}]

-- It asks the engine, which has not got the command, and sends it again.
def retryRun : List CommandAction :=
  List.replicate 6 (CommandAction.step "o" {}) ++
    [CommandAction.step "o" { receipt := .ok ⟨some "b", .unknown⟩ }, .step "o" {}]

theorem delivered_at_most_once_retry :
    ∃ h, (orderlyMachine 2).run (orderlyMachine 2).start (lostRun ++ retryRun) = some h ∧
      (h.log.filter Note.sends).length = 2 ∧ AtMostOnce h.log := by
  refine ⟨_, rfl, rfl, ?_⟩
  exact @delivered_at_most_once 2 _ ⟨lostRun ++ retryRun, rfl⟩

-- Everything is suspended in between, and the command is sent all the same.
theorem sent_after_suspend_retry :
    ∃ h, (commandMachine 2).run (commandMachine 2).start (lostRun ++ .suspend 2 :: retryRun) = some h ∧
      ¬AtMostOnce h.log := by
  refine ⟨_, rfl, fun hall => ?_⟩
  have hopen := hall.final "o" [] _ _ _ rfl (.suspended "o")
    (List.mem_cons_of_mem _ (List.mem_cons_of_mem _ List.mem_cons_self)) rfl
  cases hopen

end GaHub.Conductor
