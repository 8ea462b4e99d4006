import GaHub.Conductor.Commands.Delivery

namespace GaHub.Conductor

open Lib

def Note.doubts : Note → Bool
  | .uncertain _ => true
  | .queried .. | .sent .. | .suspended _ | .stored .. => false

def Note.answers : Note → Bool
  | .sent .. => true
  | .queried _ _ known => known
  | .suspended _ | .uncertain _ | .stored .. => false

-- What a log, newest entry first, may say of rejections after an uncertain attempt.
def Certain (log : List Note) : Prop :=
  ∀ o l₃ l₂ l₁ answered, log = l₃ ++ .stored o .rejected answered :: (l₂ ++ .uncertain o :: l₁) →
    answered = true ∧ ∃ n ∈ l₂, n.operation = o ∧ n.answers = true

namespace Hub

variable (h : Hub)

-- A step that reclassifies nothing: the command loop rejects only what is still pending and not being
-- delivered, and a query for a receipt does not itself fail with a definite status.
def careful : CommandAction → Bool
  | .handle _ => h.caught.all fun e => !(decide (e.2.1 = .pending) && e.2.2.definite) ||
      (h.row e.1).any (fun c => decide (c.state = .pending)) && !h.underWay (fun _ => true) e.1
  | .step o answers =>
      match h.jobs.get? o, answers.receipt with
      | some ⟨_, _, .running .marked state _⟩, .error (.process f) =>
          !decide (state = .sending ∨ state = .unknown) || f.uncertain false
      | _, _ => true
  | _ => true

def HeardOf (b : Option String) : Prop :=
  ∀ name, b = some name → name ≠ "" → ∃ k, k ≤ h.learned ∧ h.boots[k]? = some name

def Outdated (b : Option String) : Prop :=
  ∃ name k, b = some name ∧ name ≠ "" ∧ k < h.learned ∧ h.boots[k]? = some name

end Hub

section Boots

variable {h h' : Hub} {b : Option String}

theorem Booted.heardOf (hb : Booted h) : h.HeardOf h.process.bootId :=
  fun name hname _ => ⟨h.learned, Nat.le_refl _, hb.current name hname⟩

theorem Hub.HeardOf.outdated (hheard : h.HeardOf b) (hb : Booted h) (hsome : h.process.bootId.isSome = true)
    (hnamed : b.all (· = "") = false) (hother : b ≠ h.process.bootId) : h.Outdated b := by
  obtain ⟨current, hcurrent⟩ := Option.isSome_iff_exists.mp hsome
  cases b with
  | none => cases hnamed
  | some name =>
      have hname : name ≠ "" := by simpa using hnamed
      obtain ⟨k, hk, hfound⟩ := hheard name rfl hname
      refine ⟨name, k, rfl, hname, Nat.lt_of_le_of_ne hk fun hlast => hother ?_, hfound⟩
      rw [hlast, hb.current current hcurrent] at hfound
      rw [hcurrent, hfound]

theorem Hub.Outdated.ne (hold : h.Outdated b) (hb : Booted h) : b ≠ h.process.bootId := by
  obtain ⟨name, k, rfl, _, hk, hfound⟩ := hold
  intro hsame
  have hlast := hb.current name hsame.symm
  obtain ⟨hlt, hget⟩ := List.getElem?_eq_some_iff.mp hfound
  obtain ⟨hlt', hget'⟩ := List.getElem?_eq_some_iff.mp hlast
  exact Nat.ne_of_lt hk ((List.Nodup.getElem_inj_iff hb.distinct).mp (hget.trans hget'.symm))

theorem Turn.boots (hturn : Turn h h') :
    h.learned ≤ h'.learned ∧ ∀ (k : Nat) name, h.boots[k]? = some name → h'.boots[k]? = some name := by
  cases hturn with
  | same _ hboots hlearned _ | ready _ hboots hlearned _ | crashed _ hboots hlearned _ _ =>
      exact ⟨Nat.le_of_eq hlearned.symm, fun k name hk => hboots ▸ hk⟩
  | learned _ hboots _ hlater _ => exact ⟨hlater, fun k name hk => hboots ▸ hk⟩
  | rebooted _ hboots hlearned _ _ _ =>
      refine ⟨Nat.le_of_eq hlearned.symm, fun k name hk => ?_⟩
      rw [hboots, List.getElem?_append_left (List.getElem?_eq_some_iff.mp hk).1]
      exact hk

theorem Hub.HeardOf.turn (hheard : h.HeardOf b) (hturn : Turn h h') : h'.HeardOf b := by
  intro name hname hne
  obtain ⟨k, hk, hfound⟩ := hheard name hname hne
  exact ⟨k, hk.trans hturn.boots.1, hturn.boots.2 k name hfound⟩

theorem Hub.Outdated.turn (hold : h.Outdated b) (hturn : Turn h h') : h'.Outdated b := by
  obtain ⟨name, k, hname, hne, hk, hfound⟩ := hold
  exact ⟨name, k, hname, hne, Nat.lt_of_lt_of_le hk hturn.boots.1, hturn.boots.2 k name hfound⟩

end Boots

-- Since the last uncertain attempt, the engine has answered for the command.
def AnsweredSince : List Note → Prop := Since (fun n => n.doubts = true) fun n => n.answers = true

def Doubtful (notes : List Note) : Prop := ∃ n ∈ notes, n.doubts = true

structure Sure (h : Hub) (row : Option Command) (notes : List Note) : Prop where
  certain : Each (fun n older => ∀ q answered, n = .stored q .rejected answered →
    ¬Doubtful older ∨ answered = true ∧ AnsweredSince older) notes
  doubted : Doubtful notes → ∃ d, row = some d ∧ d.state ≠ .pending ∧
    (d.payload.prepared.isSome = true ∨ h.Outdated d.payload.bootId)
  heard : ∀ d, row = some d → h.HeardOf d.payload.bootId

structure Read (h : Hub) (notes : List Note) (d : Command) (payload : CommandPayload) : Prop where
  boot : d.payload.bootId = payload.bootId
  prepared : payload.prepared.isSome = true → d.payload.prepared.isSome = true
  doubted : Doubtful notes → payload.prepared.isSome = true ∨ h.Outdated payload.bootId

def Follows (h : Hub) (notes : List Note) (d : Command) (payload : CommandPayload) : Point → Prop
  | .fetched | .admitted => Read h notes d payload
  | .recovered => Read h notes d payload ∧ h.process.bootId.isSome = true
  | .compared => (payload.prepared.isSome = true → d.payload.prepared.isSome = true) ∧
      (Doubtful notes → payload.prepared.isSome = true)
  | .assigned => (payload.prepared.isSome = true → d.payload.prepared.isSome = true) ∧
      (Doubtful notes → payload.prepared.isSome = true) ∧ h.HeardOf payload.bootId
  | .prepared => payload.prepared.isSome = true ∧ h.HeardOf payload.bootId
  | .saved | .marked | .cleared | .replied _ => d.payload.prepared.isSome = true
  | .sent => d.payload.prepared.isSome = true ∧ AnsweredSince notes
  | .raised error known => d.payload.prepared.isSome = true ∧
      ∀ f, error = .process f → f.uncertain known = false → AnsweredSince notes

structure Tracks (h : Hub) (row : Option Command) (notes : List Note) (point : Point) (state : CommandState)
    (payload : CommandPayload) : Prop where
  fresh : state = .pending → ¬Doubtful notes
  follows : ∃ d, row = some d ∧ d.state.final = false ∧ Follows h notes d payload point

structure Watched (h : Hub) (v : View) : Prop where
  sure : Sure h v.row v.notes
  tracks : ∀ job point state payload, v.job = some job → job.progress = .running point state payload →
    Tracks h v.row v.notes point state payload

section Histories

variable {h : Hub} {o : OperationId} {row : Option Command} {notes : List Note} {n : Note}

theorem doubtful_cons (hn : n.doubts = false) : Doubtful (n :: notes) ↔ Doubtful notes := by
  unfold Doubtful
  simp [hn]

theorem AnsweredSince.cons (h : AnsweredSince notes) (hn : n.doubts = false) : AnsweredSince (n :: notes) :=
  Since.cons h (by simp [hn])

theorem Sure.noted (hs : Sure h row notes) (hdoubts : n.doubts = false)
    (hstored : ∀ q answered, n ≠ .stored q .rejected answered) : Sure h row (n :: notes) where
  certain := ⟨fun q answered hn => absurd hn (hstored q answered), hs.certain⟩
  doubted hdoubtful := hs.doubted ((doubtful_cons hdoubts).mp hdoubtful)
  heard := hs.heard

theorem Sure.stored (hs : Sure h row notes) {state : CommandState} (hstate : state ≠ .pending) {answered : Bool}
    (hsure : state = .rejected → ¬Doubtful notes ∨ answered = true ∧ AnsweredSince notes)
    (result : Option CommandResult) (now : Time) :
    Sure h (row.map (Command.finished state result now)) (.stored o state answered :: notes) where
  certain := by
    refine ⟨fun q answered' hn => ?_, hs.certain⟩
    cases hn
    exact hsure rfl
  doubted hdoubtful := by
    obtain ⟨d, rfl, _, hpayload⟩ := hs.doubted ((doubtful_cons rfl).mp hdoubtful)
    exact ⟨d.finished state result now, rfl, hstate, hpayload⟩
  heard d hd := by
    obtain ⟨c, rfl, rfl⟩ := Option.map_eq_some_iff.mp hd
    exact hs.heard c rfl

theorem Sure.doubt (hs : Sure h row notes) {d : Command} (hrow : row = some d) (hstate : d.state ≠ .pending)
    (hpayload : d.payload.prepared.isSome = true ∨ h.Outdated d.payload.bootId) :
    Sure h row (.uncertain o :: notes) where
  certain := ⟨fun q answered hn => (by cases hn), hs.certain⟩
  doubted _ := ⟨d, hrow, hstate, hpayload⟩
  heard := hs.heard

theorem Sure.holding (hs : Sure h row notes) {payload : CommandPayload} (hheard : h.HeardOf payload.bootId)
    (hdoubted : Doubtful notes → payload.prepared.isSome = true ∨ h.Outdated payload.bootId) :
    Sure h (row.map (Command.holding payload)) notes where
  certain := hs.certain
  doubted hdoubtful := by
    obtain ⟨d, rfl, hstate, _⟩ := hs.doubted hdoubtful
    exact ⟨d.holding payload, rfl, hstate, hdoubted hdoubtful⟩
  heard d hd := by
    obtain ⟨c, rfl, rfl⟩ := Option.map_eq_some_iff.mp hd
    exact hheard

theorem Follows.noted {d d' : Command} {payload : CommandPayload} {point : Point}
    (hf : Follows h notes d payload point) (hn : n.doubts = false) (hboot : d'.payload.bootId = d.payload.bootId)
    (hprepared : d'.payload.prepared = d.payload.prepared) : Follows h (n :: notes) d' payload point := by
  have hread : Read h notes d payload → Read h (n :: notes) d' payload := fun hr =>
    ⟨hboot.trans hr.boot, hprepared ▸ hr.prepared, fun hd => hr.doubted ((doubtful_cons hn).mp hd)⟩
  cases point with
  | fetched | admitted => exact hread hf
  | recovered => exact ⟨hread hf.1, hf.2⟩
  | compared => exact ⟨hprepared ▸ hf.1, fun hd => hf.2 ((doubtful_cons hn).mp hd)⟩
  | assigned => exact ⟨hprepared ▸ hf.1, fun hd => hf.2.1 ((doubtful_cons hn).mp hd), hf.2.2⟩
  | prepared => exact hf
  | saved | marked | cleared | replied _ => exact (congrArg Option.isSome hprepared).trans hf
  | sent => exact ⟨hprepared ▸ hf.1, hf.2.cons hn⟩
  | raised error known => exact ⟨hprepared ▸ hf.1, fun f herror hsure => (hf.2 f herror hsure).cons hn⟩

theorem Tracks.went (hb : Booted h) {point point' : Point} {state : CommandState} {payload : CommandPayload}
    (ht : Tracks h row notes point state payload) (hleads : h.Leads state payload point point') :
    Tracks h row notes point' state payload := by
  obtain ⟨hfresh, d, hrow, hopen, hf⟩ := ht
  refine ⟨hfresh, d, hrow, hopen, ?_⟩
  cases point with
  | fetched =>
      cases point' with
      | admitted => exact hf
      | _ => cases hleads
  | admitted =>
      cases point' with
      | recovered => exact ⟨hf, hb.ready hleads⟩
      | _ => cases hleads
  | recovered =>
      cases point' with
      | compared =>
          refine ⟨hf.1.prepared, fun hdoubtful => ?_⟩
          -- an outdated boot is not the one it was compared with
          rcases hf.1.doubted hdoubtful with hprepared | hold
          · exact hprepared
          · rcases hleads with hempty | hsame
            · obtain ⟨name, k, hname, hne, _⟩ := hold
              simp [hname, hne] at hempty
            · exact absurd hsame (hold.ne hb)
      | _ => cases hleads
  | assigned =>
      cases point' with
      | saved => exact hf.1 hleads
      | _ => cases hleads
  | marked =>
      cases point' with
      | cleared => exact hf
      | _ => cases hleads
  | sent =>
      cases point' with
      | raised _ _ => exact ⟨hf.1, fun _ _ _ => hf.2⟩
      | replied _ => exact hf.1
      | _ => cases hleads
  | compared | prepared | saved | cleared | raised _ _ | replied _ => cases point' <;> cases hleads

end Histories

section Shifts

variable {o : OperationId} {h : Hub} {a : CommandAction} {v : View}

theorem Watched.running {job : Job} {point : Point} {state : CommandState} {payload : CommandPayload}
    (hsure : Sure h v.row v.notes) (ht : Tracks h v.row v.notes point state payload) :
    Watched h (v.moved job (.running point state payload)) := by
  refine ⟨hsure, fun job' point' state' payload' hjob hprogress => ?_⟩
  cases hjob
  cases hprogress
  exact ht

theorem Watched.ended {job : Job} {outcome : Option Raised} (hsure : Sure h v.row v.notes) :
    Watched h (v.moved job (.ended outcome)) := by
  refine ⟨hsure, fun job' point' state' payload' hjob hprogress => ?_⟩
  cases hjob
  cases hprogress

theorem Watched.idle (hsure : Sure h v.row v.notes) : Watched h { v with job := none } := by
  refine ⟨hsure, fun job' point' state' payload' hjob => ?_⟩
  cases hjob

theorem careful_handle {f : Failure} {now : Time} (hok : h.careful (.handle now) = true)
    (hcaught : h.caught = some (o, .pending, f)) (hdefinite : f.definite = true) :
    (∃ c, h.row o = some c ∧ c.state = .pending) ∧ h.underWay (fun _ => true) o = false := by
  simp only [Hub.careful, hcaught, Option.all_some, decide_true, hdefinite, Bool.and_self, Bool.not_true,
    Bool.false_or, Bool.and_eq_true, Bool.not_eq_true'] at hok
  refine ⟨?_, hok.2⟩
  cases hrow : h.row o with
  | none => simp [hrow] at hok
  | some c => exact ⟨c, rfl, by simpa [hrow] using hok.1⟩

theorem careful_query {answers : Answers} {job : Job} {state : CommandState} {payload : CommandPayload} {f : Failure}
    (hok : h.careful (.step o answers) = true) (hjob : h.jobs.get? o = some job)
    (hprogress : job.progress = .running .marked state payload) (hreceipt : answers.receipt = .error (.process f))
    (hstate : state = .sending ∨ state = .unknown) : f.uncertain false = true := by
  obtain ⟨_, _, progress⟩ := job
  cases hprogress
  simp only [Hub.careful, hjob, hreceipt, hstate, decide_true, Bool.not_true, Bool.false_or] at hok
  exact hok

theorem Shift.watched (hshift : Shift o h a v) (hb : Booted h) (hok : h.careful a = true)
    (hw : Watched h (h.view o)) : Watched h v := by
  have hsure : Sure h (h.row o) (h.notes o) := hw.sure
  have htracks : ∀ {job : Job} {point : Point} {state : CommandState} {payload : CommandPayload},
      h.jobs.get? o = some job → job.progress = .running point state payload →
        Tracks h (h.row o) (h.notes o) point state payload :=
    fun hjob hprogress => hw.tracks _ _ _ _ hjob hprogress
  cases hshift with
  | still => exact hw
  | @created c hnone _ hnew =>
      refine ⟨⟨hsure.certain, fun hdoubtful => ?_, fun d hd => ?_⟩, fun job point state payload hjob hprogress => ?_⟩
      · obtain ⟨d, hd, _⟩ := hsure.doubted hdoubtful
        cases hnone.symm.trans hd
      · cases hd
        rcases hnew with hnew | hnew
        · have hboot : c.payload.bootId = none := by
            simp only [CommandPayload.untouched, Bool.and_eq_true, decide_eq_true_eq] at hnew
            simp_all
          rw [hboot]
          intro name hname
          cases hname
        · have hboot : c.payload.bootId = h.process.bootId := by
            simp only [CommandPayload.untouched, Bool.and_eq_true, decide_eq_true_eq] at hnew
            simp_all
          rw [hboot]
          exact hb.heardOf
      · obtain ⟨d, hd, _⟩ := (htracks hjob hprogress).follows
        cases hnone.symm.trans hd
  | entered _ hentered _ =>
      refine ⟨hsure, fun job point state payload hjob hprogress => ?_⟩
      cases hjob
      cases hentered.symm.trans hprogress
  | @fetched job c _ _ hrow hopen _ =>
      have hstate : c.state.final = false := by
        cases hc : c.state with
        | pending | sending | unknown => rfl
        | succeeded => exact absurd hc hopen.1
        | rejected => exact absurd hc hopen.2
      have hdoubted : Doubtful (h.notes o) → c.state ≠ .pending ∧
          (c.payload.prepared.isSome = true ∨ h.Outdated c.payload.bootId) := by
        intro hdoubtful
        obtain ⟨d, hd, hpayload⟩ := hsure.doubted hdoubtful
        cases hrow.symm.trans hd
        exact hpayload
      exact .running hsure ⟨fun hpending hdoubtful => (hdoubted hdoubtful).1 hpending, c, hrow, hstate,
        rfl, id, fun hdoubtful => (hdoubted hdoubtful).2⟩
  | ended _ => exact .ended hsure
  | went hjob hprogress hleads => exact .running hsure ((htracks hjob hprogress).went hb hleads)
  | assigned _ hjob hprogress =>
      obtain ⟨hfresh, d, hrow, hopen, hf⟩ := htracks hjob hprogress
      exact .running hsure ⟨hfresh, d, hrow, hopen, hf.1, hf.2, hb.heardOf⟩
  | prepared hjob hprogress _ hprepares =>
      obtain ⟨hfresh, d, hrow, hopen, hf⟩ := htracks hjob hprogress
      exact .running hsure ⟨hfresh, d, hrow, hopen, hprepares.prepared, hprepares.bootId ▸ hf.2.2⟩
  | @saved job state payload hjob hprogress =>
      obtain ⟨hfresh, d, hrow, hopen, hprepared, hheard⟩ := htracks hjob hprogress
      refine .running (hsure.holding hheard fun _ => Or.inl hprepared) ⟨hfresh, d.holding payload, ?_, hopen, hprepared⟩
      simp [View.holding, Hub.view, hrow]
  | @marked job state payload now hjob hprogress =>
      obtain ⟨hfresh, d, hrow, _, hprepared⟩ := htracks hjob hprogress
      refine .running (hsure.stored (by decide) (fun hrejected => by cases hrejected) ..)
        ⟨fun hpending => ?_, d.finished .sending none now, ?_, rfl, hprepared⟩
      · rw [View.stored, doubtful_cons rfl]
        exact hfresh hpending
      · simp [View.stored, Hub.view, hrow]
  | @queried job state payload receipt point hjob hprogress hpoint =>
      obtain ⟨hfresh, d, hrow, hopen, hprepared⟩ := htracks hjob hprogress
      refine .running (hsure.noted rfl fun q answered hn => by cases hn) ⟨fun hpending => ?_, d, hrow, hopen, ?_⟩
      · rw [View.noted, doubtful_cons rfl]
        exact hfresh hpending
      · rcases hpoint with ⟨rfl, _, _⟩ | ⟨reply, rfl⟩ | ⟨error, known, rfl, hcause⟩
        · exact hprepared
        · exact hprepared
        · refine ⟨hprepared, fun f herror hdefinite => ?_⟩
          rcases hcause with hknown | hchanged
          · exact Since.cons_good hknown (by simp [Note.doubts])
          · -- a changed boot leaves the outcome open
            cases herror.symm.trans hchanged
            simp [Failure.uncertain, ErrorDetail.detail] at hdefinite
  | unanswered haction hreceipt hjob hprogress hstate =>
      obtain ⟨hfresh, d, hrow, hopen, hprepared⟩ := htracks hjob hprogress
      refine .running hsure ⟨hfresh, d, hrow, hopen, hprepared, fun f herror hdefinite => ?_⟩
      subst haction
      subst herror
      rw [careful_query hok hjob hprogress hreceipt hstate] at hdefinite
      cases hdefinite
  | sent hjob hprogress =>
      obtain ⟨hfresh, d, hrow, hopen, hprepared⟩ := htracks hjob hprogress
      refine .running (hsure.noted rfl fun q answered hn => by cases hn) ⟨fun hpending => ?_, d, hrow, hopen,
        hprepared, Since.cons_good rfl (by simp [Note.doubts])⟩
      rw [View.noted, doubtful_cons rfl]
      exact hfresh hpending
  | @rejected job point state payload result now outcome hjob hprogress hearly =>
      obtain ⟨hfresh, d, hrow, hopen, hf⟩ := htracks hjob hprogress
      refine .ended (hsure.stored (by decide) (fun _ => Or.inl fun hdoubtful => ?_) ..)
      rcases hearly with ⟨rfl, hpending⟩ | ⟨rfl, hnone⟩
      · exact hfresh hpending hdoubtful
      · have hprepared := hf.2.1 hdoubtful
        simp [hnone] at hprepared
  | @outdated job state payload result now outcome hjob hprogress hboot =>
      obtain ⟨_, d, hrow, _, hread, hsome⟩ := htracks hjob hprogress
      have hold : h.Outdated d.payload.bootId := by
        refine (hsure.heard d hrow).outdated hb hsome ?_ ?_
        · rw [hread.boot]
          exact hboot.1
        · rw [hread.boot]
          exact hboot.2
      refine .ended ((hsure.stored (by decide) (fun hrejected => by cases hrejected) ..).doubt
        (d := d.finished .unknown (some result) now) ?_ (fun hpending => by cases hpending) (Or.inr hold))
      simp [hrow]
  | @uncertain job error known answered state payload result now outcome hjob hprogress =>
      obtain ⟨_, d, hrow, _, hprepared, _⟩ := htracks hjob hprogress
      refine .ended ((hsure.stored (by decide) (fun hrejected => by cases hrejected) ..).doubt
        (d := d.finished .unknown result now) ?_ (fun hpending => by cases hpending) (Or.inl hprepared))
      simp [hrow]
  | refused hjob hprogress hdefinite =>
      obtain ⟨_, d, _, _, _, hanswered⟩ := htracks hjob hprogress
      exact .ended (hsure.stored (by decide) (fun _ => Or.inr ⟨rfl, hanswered _ rfl hdefinite⟩) ..)
  | delivered hjob hprogress =>
      exact .ended (hsure.stored (by decide) (fun hrejected => by cases hrejected) ..)
  | left _ _ | crashed => exact .idle hsure
  | @handled f result now haction hcaught hdefinite =>
      subst haction
      obtain ⟨⟨c, hrow, hpending⟩, hidle⟩ := careful_handle hok hcaught hdefinite
      refine ⟨hsure.stored (by decide) (fun _ => Or.inl fun hdoubtful => ?_) ..,
        fun job point state payload hjob hprogress => ?_⟩
      · obtain ⟨d, hd, hstate, _⟩ := hsure.doubted hdoubtful
        cases hrow.symm.trans hd
        exact hstate hpending
      · have hbusy := @underWay_running o h (fun _ => true) job point state payload hjob hprogress
        cases hbusy.symm.trans hidle
  | @suspended c result now _ hrow hopen =>
      have hheld : Sure h ((h.row o).map (Command.holding { c.payload with suspended := true })) (h.notes o) := by
        refine hsure.holding (hsure.heard c hrow) fun hdoubtful => ?_
        obtain ⟨d, hd, _, hpayload⟩ := hsure.doubted hdoubtful
        cases hrow.symm.trans hd
        exact hpayload
      have hafter := @Sure.stored h o _ _ hheld .unknown (by decide) false (fun hrejected => by cases hrejected)
        (some result) now
      refine ⟨hafter.noted rfl fun q answered hn => (by cases hn), fun job point state payload hjob hprogress => ?_⟩
      obtain ⟨hfresh, d, hd, _, hf⟩ := htracks hjob hprogress
      cases hrow.symm.trans hd
      refine ⟨fun hpending => ?_, (c.holding { c.payload with suspended := true }).finished .unknown (some result) now, ?_,
        rfl, (hf.noted rfl rfl rfl).noted rfl rfl rfl⟩
      · rw [View.noted, doubtful_cons rfl, View.stored, doubtful_cons rfl]
        exact hfresh hpending
      · simp [View.noted, View.stored, View.holding, Hub.view, hrow]

theorem Shift.final_kept (hshift : Shift o h a v) (hok : h.careful a = true) (hw : Watched h (h.view o))
    {c : Command} (hrow : h.row o = some c) (hfinal : c.state.final = true) : v.row = some c := by
  have hidle : ∀ {job : Job} {point : Point} {state : CommandState} {payload : CommandPayload},
      h.jobs.get? o = some job → job.progress = .running point state payload → False := by
    intro job point state payload hjob hprogress
    obtain ⟨d, hd, hopen, _⟩ := (hw.tracks job point state payload hjob hprogress).follows
    cases hrow.symm.trans hd
    cases hopen.symm.trans hfinal
  cases hshift with
  | still | entered _ _ _ | fetched _ _ _ _ _ | ended _ | went _ _ _ | assigned _ _ _ | prepared _ _ _ _
  | queried _ _ _ | unanswered _ _ _ _ _ | sent _ _ | left _ _ | crashed => exact hrow
  | created hnone _ _ => cases hnone.symm.trans hrow
  | saved hjob hprogress | marked hjob hprogress | rejected hjob hprogress _ | outdated hjob hprogress _
  | uncertain hjob hprogress | refused hjob hprogress _ | delivered hjob hprogress =>
      exact (hidle hjob hprogress).elim
  | handled haction hcaught hdefinite =>
      subst haction
      obtain ⟨⟨d, hd, hpending⟩, _⟩ := careful_handle hok hcaught hdefinite
      cases hrow.symm.trans hd
      rw [hpending] at hfinal
      cases hfinal
  | suspended _ hrow' hopen =>
      cases hrow.symm.trans hrow'
      cases hstate : c.state with
      | pending | sending | unknown =>
          rw [hstate] at hfinal
          cases hfinal
      | succeeded => exact absurd hstate hopen.1
      | rejected => exact absurd hstate hopen.2

theorem Watched.turn {h' : Hub} (hw : Watched h v) (hturn : Turn h h') (hjobs : v.job = h'.jobs.get? o) :
    Watched h' v := by
  refine ⟨⟨hw.sure.certain, fun hdoubtful => ?_, fun d hd => (hw.sure.heard d hd).turn hturn⟩,
    fun job point state payload hjob hprogress => ?_⟩
  · obtain ⟨d, hd, hstate, hpayload⟩ := hw.sure.doubted hdoubtful
    exact ⟨d, hd, hstate, hpayload.imp id fun hold => hold.turn hturn⟩
  · obtain ⟨hfresh, d, hd, hopen, hf⟩ := hw.tracks job point state payload hjob hprogress
    refine ⟨hfresh, d, hd, hopen, ?_⟩
    have hread : Read h v.notes d payload → Read h' v.notes d payload := fun hr =>
      ⟨hr.boot, hr.prepared, fun hdoubtful => (hr.doubted hdoubtful).imp id fun hold => hold.turn hturn⟩
    cases point with
    | fetched | admitted => exact hread hf
    | recovered => exact ⟨hread hf.1, hturn.someBoot (o := o) (by rw [← hjobs, hjob]; rfl) hf.2⟩
    | assigned => exact ⟨hf.1, hf.2.1, hf.2.2.turn hturn⟩
    | prepared => exact ⟨hf.1, hf.2.turn hturn⟩
    | _ => exact hf

end Shifts

theorem certain_of_sure {h : Hub} (hsure : ∀ o, Sure h (h.row o) (h.notes o)) : Certain h.log := by
  intro o l₃ l₂ l₁ answered hlog
  have hown : h.notes o = l₃.filter (fun n => decide (n.operation = o)) ++ .stored o .rejected answered ::
      (l₂.filter (fun n => decide (n.operation = o)) ++ .uncertain o ::
        l₁.filter fun n => decide (n.operation = o)) := by
    unfold Hub.notes
    rw [hlog, List.filter_append, List.filter_cons_of_pos (by simp [Note.operation]), List.filter_append,
      List.filter_cons_of_pos (by simp [Note.operation])]
  rcases (hsure o).certain.split hown o answered rfl with hclear | ⟨hanswered, hsince⟩
  · exact absurd ⟨.uncertain o, by simp, rfl⟩ hclear
  · obtain ⟨n, hn, hanswers⟩ := hsince _ (.uncertain o) _ rfl rfl
    obtain ⟨hmem, hoperation⟩ := List.mem_filter.mp hn
    exact ⟨hanswered, n, hmem, by simpa using hoperation, hanswers⟩

def carefulMachine (maxWorkflows : Nat) : Machine Hub CommandAction :=
  (commandMachine maxWorkflows).restrict fun h a => h.careful a = true

section Runs

variable {maxWorkflows : Nat} {h h' : Hub} {a : CommandAction}

structure Supervised (h : Hub) : Prop where
  settled : Settled h.process
  booted : Booted h
  watched : ∀ o, Watched h (h.view o)

theorem supervised_start (maxWorkflows : Nat) : Supervised (commandMachine maxWorkflows).start := by
  refine ⟨settled_start maxWorkflows, booted_start maxWorkflows, fun o => ⟨⟨trivial, ?_, fun d hd => ?_⟩, ?_⟩⟩
  · rintro ⟨n, hn, _⟩
    cases hn
  · cases hd
  · intro job point state payload hjob
    cases hjob

theorem Supervised.next (hsuper : Supervised h) (hnext : (carefulMachine maxWorkflows).next h a = some h') :
    Supervised h' ∧ ∀ o c, h.row o = some c → c.state.final = true → h'.row o = some c := by
  obtain ⟨hok, hnext⟩ := Machine.restrict_next hnext
  obtain ⟨hsettled, hshifts⟩ := next_shifts hsuper.settled hnext
  have hturn := next_turn hnext
  refine ⟨⟨hsettled, hturn.booted hsuper.booted, fun o => ?_⟩, fun o c hrow hfinal => ?_⟩
  · exact ((hshifts o).watched hsuper.booted hok (hsuper.watched o)).turn (o := o) hturn rfl
  · exact (hshifts o).final_kept hok (hsuper.watched o) hrow hfinal

theorem reachable_supervised (hreach : (carefulMachine maxWorkflows).Reachable h) : Supervised h :=
  hreach.invariant (supervised_start maxWorkflows) fun _ _ _ hsuper hnext => (hsuper.next hnext).1

end Runs

-- No uncertain attempt ends as a rejection without an answer, and an outcome is for good, as long as
-- nothing is reclassified.
theorem outcomes_definitive {maxWorkflows : Nat} {h h' : Hub} {actions : List CommandAction}
    (hreach : (carefulMachine maxWorkflows).Reachable h)
    (hrun : (carefulMachine maxWorkflows).run h actions = some h') :
    Certain h.log ∧ ∀ o c, h.row o = some c → c.state.final = true → h'.row o = some c := by
  have hsuper := reachable_supervised hreach
  refine ⟨certain_of_sure fun o => (hsuper.watched o).sure, fun o c hrow hfinal => ?_⟩
  have hend := Machine.run_invariant (M := carefulMachine maxWorkflows)
    (P := fun h => Supervised h ∧ h.row o = some c) (fun h a h' hboth hnext => ?_) actions ⟨hsuper, hrow⟩ hrun
  · exact hend.2
  · obtain ⟨hsuper', hkept⟩ := hboth.1.next hnext
    exact ⟨hsuper', hkept o c hboth.2 hfinal⟩

-- The command loop delivers "o", and the engine may have taken it.
def enqueuedRun : List CommandAction :=
  [CommandAction.reboot "b", .learn 0, .ready true, .submit "o" greeting "r" 1 false, .list, .pick false] ++
    List.replicate 10 (CommandAction.step "o" {}) ++
    [CommandAction.step "o" { reply := .error (.process ⟨some 409, .object { enqueued := true }⟩) }, .step "o" {}, .step "o" {}]

theorem outcomes_definitive_enqueued :
    ∃ h h', (carefulMachine 2).run (carefulMachine 2).start enqueuedRun = some h ∧
      (carefulMachine 2).run h [.suspend 2] = some h' ∧ (h.row "o").map (·.state) = some .unknown ∧
      Certain h.log ∧ ∀ o c, h.row o = some c → c.state.final = true → h'.row o = some c := by
  refine ⟨_, _, rfl, rfl, rfl, ?_⟩
  exact @outcomes_definitive 2 _ _ [.suspend 2] ⟨enqueuedRun, rfl⟩ rfl

-- The loop then takes the same error for a rejection.
theorem enqueued_rejected_by_loop :
    ∃ h, (commandMachine 2).run (commandMachine 2).start (enqueuedRun ++ [.handle 2]) = some h ∧
      (h.row "o").map (·.state) = some .rejected ∧ ¬Certain h.log := by
  refine ⟨_, rfl, rfl, fun hall => ?_⟩
  obtain ⟨hanswered, _⟩ := hall "o" [] [] _ false rfl
  cases hanswered

end GaHub.Conductor
