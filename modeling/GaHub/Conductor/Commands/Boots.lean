import GaHub.Conductor.Commands.Shifts

namespace GaHub.Conductor

open Lib

-- What a step does to the engine's identity as the service knows it.
inductive Turn (h h' : Hub) : Prop where
  | same (hboot : h'.process.bootId = h.process.bootId) (hboots : h'.boots = h.boots)
      (hlearned : h'.learned = h.learned) (hready : h'.ready = true → h.ready = true)
  | ready (hboot : h'.process.bootId = h.process.bootId) (hboots : h'.boots = h.boots)
      (hlearned : h'.learned = h.learned) (hset : h.process.bootId.isSome = true)
  | rebooted {b : String} (hboot : h'.process.bootId = h.process.bootId) (hboots : h'.boots = h.boots ++ [b])
      (hlearned : h'.learned = h.learned) (hready : h'.ready = true → h.ready = true) (hname : b ≠ "")
      (hnew : b ∉ h.boots)
  | learned {b : String} (hboot : h'.process.bootId = some b) (hboots : h'.boots = h.boots)
      (hfound : h.boots[h'.learned]? = some b) (hlater : h.learned ≤ h'.learned) (hready : h'.ready = true → False)
  | crashed (hboot : h'.process.bootId = none) (hboots : h'.boots = h.boots) (hlearned : h'.learned = h.learned)
      (hready : h'.ready = false) (hjobs : h'.jobs = .empty)

-- A step that leaves the engine alone; it may find the connection broken.
structure Hub.Beside (h h' : Hub) : Prop where
  boot : h'.process.bootId = h.process.bootId
  boots : h'.boots = h.boots
  learned : h'.learned = h.learned
  ready : h'.ready = true → h.ready = true
  listed : h'.listed = h.listed
  caught : h'.caught = h.caught

section Beside

variable {h g k : Hub} {q : OperationId} {job : Job}

theorem Hub.Beside.refl (h : Hub) : h.Beside h := ⟨rfl, rfl, rfl, id, rfl, rfl⟩

theorem Hub.Beside.trans (hg : h.Beside g) (hk : g.Beside k) : h.Beside k :=
  ⟨hk.boot.trans hg.boot, hk.boots.trans hg.boots, hk.learned.trans hg.learned, hg.ready ∘ hk.ready,
    hk.listed.trans hg.listed, hk.caught.trans hg.caught⟩

theorem Hub.Beside.turn (h' : h.Beside g) : Turn h g := .same h'.boot h'.boots h'.learned h'.ready

theorem Hub.Beside.move (hg : h.Beside g) (q : OperationId) (job : Job) (progress : Progress) :
    h.Beside (g.move q job progress) := ⟨hg.boot, hg.boots, hg.learned, hg.ready, hg.listed, hg.caught⟩

theorem Hub.Beside.note (hg : h.Beside g) (n : Note) : h.Beside (g.note n) :=
  ⟨hg.boot, hg.boots, hg.learned, hg.ready, hg.listed, hg.caught⟩

theorem Hub.Beside.finish (hg : h.Beside g) (q : OperationId) (state : CommandState) (result : Option CommandResult)
    (answered : Bool) (now : Time) : h.Beside (g.finish q state result answered now) :=
  ⟨hg.boot, hg.boots, hg.learned, hg.ready, hg.listed, hg.caught⟩

theorem recordRejection_beside (hg : h.Beside g) (f : Failure) (now : Time) :
    h.Beside (g.recordRejection q f now) := by
  unfold Hub.recordRejection
  split
  · exact hg.finish ..
  · exact hg

theorem reject_beside (hg : h.Beside g) (f : Failure) (now : Time) : h.Beside (g.reject q job f now) :=
  (recordRejection_beside hg f now).move ..

theorem fetch_beside : h.Beside (h.fetch q job) := by
  have hmove := fun progress => (Hub.Beside.refl h).move q job progress
  unfold Hub.fetch
  split
  · exact hmove _
  · split
    · exact hmove _
    · split
      · exact hmove _
      · split <;> exact hmove _

theorem conclude_beside (error : Raised) (known : Bool) (now : Time) :
    h.Beside (h.conclude q job error known now) := by
  unfold Hub.conclude
  cases error with
  | process f =>
      have hready : h.Beside { h with ready := h.ready && decide (f.detail.detail.error ≠ some "engine_boot_changed") } :=
        ⟨rfl, rfl, rfl, fun hready => (Bool.and_eq_true_iff.mp hready).1, rfl, rfl⟩
      dsimp only
      split
      · exact ((hready.finish ..).note _).move ..
      · exact (hready.finish ..).move ..
  | value _ | notRunning _ | body _ | other => exact (((Hub.Beside.refl h).finish ..).note _).move ..

theorem prepare_beside (payload : CommandPayload) (a : Answers) : h.Beside (h.prepare payload a).2 := by
  have hcheck : h.Beside (h.checkAction payload a).2 := by
    unfold Hub.checkAction
    split
    · split
      · exact .refl h
      · exact ⟨rfl, rfl, rfl, fun hready => (Bool.and_eq_true_iff.mp hready).1, rfl, rfl⟩
    · exact .refl h
  have hnewcomer : ∀ (g : Hub) payload rid, g.Beside (g.admitAction payload rid a).2 := by
    intro g payload rid
    unfold Hub.admitAction
    dsimp only
    split
    · split <;> exact .refl g
    · split
      · split <;> exact ⟨rfl, rfl, rfl, id, rfl, rfl⟩
      · split
        · split <;> exact .refl g
        · exact .refl g
  unfold Hub.prepare
  rcases hpair : h.checkAction payload a with ⟨result, g⟩
  rw [hpair] at hcheck
  cases result with
  | error e => exact hcheck
  | ok payload => exact hcheck.trans (hnewcomer g _ _)

theorem advance_beside (point : Point) (state : CommandState) (payload : CommandPayload) (a : Answers) :
    h.Beside (h.advance q job point state payload a) := by
  have hmove := fun progress => (Hub.Beside.refl h).move q job progress
  have hnote := fun n progress => ((Hub.Beside.refl h).note n).move q job progress
  cases point with
  | fetched =>
      simp only [Hub.advance]
      split
      · split
        · exact reject_beside (.refl h) _ _
        · exact hmove _
        · exact hmove _
      · exact hmove _
  | admitted =>
      simp only [Hub.advance]
      split
      · exact hmove _
      · split <;> exact hmove _
  | recovered =>
      simp only [Hub.advance]
      split
      · exact (((Hub.Beside.refl h).finish ..).note _).move ..
      · exact hmove _
  | compared => exact hmove _
  | assigned =>
      simp only [Hub.advance]
      split
      · exact hmove _
      · have hprepare := prepare_beside (h := h) payload a
        rcases hpair : h.prepare payload a with ⟨result, g⟩
        rw [hpair] at hprepare
        cases result with
        | ok payload' => exact hprepare.move ..
        | error e =>
            cases e with
            | process f => exact reject_beside hprepare f _
            | value message | notRunning message => exact reject_beside hprepare _ _
            | body _ | other => exact hprepare.move ..
  | prepared =>
      have hwrite : h.Beside (h.write (.prepareCommand q payload)) := ⟨rfl, rfl, rfl, id, rfl, rfl⟩
      exact hwrite.move ..
  | saved => exact ((Hub.Beside.refl h).finish ..).move ..
  | marked =>
      simp only [Hub.advance]
      split
      · split
        · exact hmove _
        · split
          · exact hnote _ _
          · split <;> exact hnote _ _
      · exact hmove _
  | cleared => exact hnote _ _
  | sent =>
      simp only [Hub.advance]
      split <;> exact hmove _
  | raised error known => exact conclude_beside error known a.now
  | replied reply =>
      simp only [Hub.advance]
      split
      · exact ⟨rfl, rfl, rfl, id, rfl, rfl⟩
      · split <;> exact ⟨rfl, rfl, rfl, id, rfl, rfl⟩

theorem suspend_beside (now : Time) (es : List (OperationId × Command)) (hg : h.Beside g) :
    h.Beside (es.foldl (Hub.suspendOne now) g) := by
  induction es generalizing g with
  | nil => exact hg
  | cons e es ih =>
      refine ih ?_
      have hwrite : h.Beside (g.write (.prepareCommand e.1 { e.2.payload with suspended := true })) :=
        ⟨hg.boot, hg.boots, hg.learned, hg.ready, hg.listed, hg.caught⟩
      exact (hwrite.finish ..).note _

theorem process_bootId {p p' : Process} {a : ProcessAction} (haside : a.aside = true) (hnext : p.next a = some p') :
    p'.bootId = p.bootId := by
  cases a with
  | record s record fault =>
      simp only [Process.next] at hnext
      split at hnext
      · cases hnext
        simp only [Process.attempt]
        split
        · exact heard_bootId p record
        · split <;> exact heard_bootId p record
      · cases hnext
  | tracker action =>
      simp only [Process.next] at hnext
      split at hnext
      · obtain ⟨t, _, rfl⟩ := Option.map_eq_some_iff.mp hnext
        rfl
      · cases hnext
  | defer transition =>
      cases hnext
      rfl
  | effect index kept id now =>
      simp only [Process.next] at hnext
      split at hnext
      · cases hnext
      · split at hnext
        · cases hnext
        · cases hnext
          unfold Process.mirror
          split <;> rfl
        · cases hnext
          have hreport : ∀ (p : Process) request phase error id, (p.reportFailure request phase error id now).bootId =
              p.bootId := by
            intro p request phase error id
            unfold Process.reportFailure
            split <;> rfl
          unfold Process.publishNow
          dsimp only
          split <;> split <;> first | rfl | exact hreport ..
  | archive items | backfillArchive items tombstones | backfillActivity rows tombstones =>
      simp only [Process.next] at hnext
      split at hnext <;> cases hnext
      rfl
  | boot bootId | restart active recent => cases haside

end Beside

theorem next_turn {h h' : Hub} {a : CommandAction} (hnext : h.next a = some h') : Turn h h' := by
  have hrefl := Hub.Beside.refl h
  cases a with
  | submit operation intent fresh now fault =>
      simp only [Hub.next] at hnext
      split at hnext <;> cases hnext
      refine Hub.Beside.turn ?_
      simp only [Hub.submit]
      split
      · exact ⟨rfl, rfl, rfl, id, rfl, rfl⟩
      · split <;> exact ⟨rfl, rfl, rfl, id, rfl, rfl⟩
  | enter operation =>
      simp only [Hub.next] at hnext
      split at hnext <;> cases hnext
      exact .same rfl rfl rfl id
  | step operation answers =>
      simp only [Hub.next] at hnext
      split at hnext
      · cases hnext
      · split at hnext
        · split at hnext <;> cases hnext
          exact fetch_beside.turn
        · split at hnext <;> cases hnext
          exact (advance_beside ..).turn
        · cases hnext
          unfold Hub.leave
          split <;> exact .same rfl rfl rfl id
  | list =>
      simp only [Hub.next] at hnext
      split at hnext <;> cases hnext
      exact .same rfl rfl rfl id
  | pick autoAccept =>
      simp only [Hub.next, Hub.pick] at hnext
      repeat' split at hnext
      all_goals cases hnext
      all_goals exact .same rfl rfl rfl id
  | handle now =>
      simp only [Hub.next] at hnext
      split at hnext
      · obtain ⟨e, _, rfl⟩ := Option.map_eq_some_iff.mp hnext
        dsimp only
        split
        · have hbeside := recordRejection_beside (q := e.1) (.refl { h with caught := none }) e.2.2 now
          exact .same hbeside.boot hbeside.boots hbeside.learned hbeside.ready
        · exact .same rfl rfl rfl id
      · cases hnext
  | suspend now =>
      simp only [Hub.next] at hnext
      split at hnext <;> cases hnext
      exact (suspend_beside now _ hrefl).turn
  | process action =>
      simp only [Hub.next] at hnext
      split at hnext
      · rename_i haside
        obtain ⟨p, hp, rfl⟩ := Option.map_eq_some_iff.mp hnext
        exact .same (process_bootId haside hp) rfl rfl id
      · cases hnext
  | ready ready =>
      simp only [Hub.next] at hnext
      split at hnext
      · cases hnext
      · rename_i hguard
        cases hnext
        cases ready with
        | false => exact .same rfl rfl rfl fun hready => by cases hready
        | true => exact .ready rfl rfl rfl (by simpa [Option.isSome_iff_ne_none] using hguard)
  | stop =>
      cases hnext
      exact .same rfl rfl rfl id
  | reboot bootId =>
      simp only [Hub.next] at hnext
      split at hnext
      · cases hnext
      · rename_i hguard
        cases hnext
        exact .rebooted rfl rfl rfl id (not_or.mp hguard).1 (not_or.mp hguard).2
  | learn index =>
      simp only [Hub.next] at hnext
      split at hnext
      · cases hnext
      · rename_i bootId hfound
        split at hnext
        · cases hnext
        · rename_i hguard
          cases hnext
          simp only [Bool.or_eq_true, decide_eq_true_eq, not_or, Bool.not_eq_true] at hguard
          exact .learned rfl rfl hfound (Nat.le_of_not_lt hguard.2) fun hready => by simp [hguard.1] at hready
  | crash active recent =>
      simp only [Hub.next] at hnext
      obtain ⟨p, hp, rfl⟩ := Option.map_eq_some_iff.mp hnext
      simp only [Process.next] at hp
      obtain ⟨t, _, rfl⟩ := Option.map_eq_some_iff.mp hp
      exact .crashed rfl rfl rfl rfl rfl

-- No boot has the name of another or no name, and the service works with the last it heard of.
structure Booted (h : Hub) : Prop where
  named : ∀ b ∈ h.boots, b ≠ ""
  distinct : h.boots.Nodup
  current : ∀ b, h.process.bootId = some b → h.boots[h.learned]? = some b
  ready : h.ready = true → h.process.bootId.isSome = true

theorem Booted.unnamed {h : Hub} (hb : Booted h) (hsome : h.process.bootId.isSome = true) :
    h.process.bootId.all (· = "") = false := by
  obtain ⟨b, hboot⟩ := Option.isSome_iff_exists.mp hsome
  have hname := hb.named b (List.mem_of_getElem? (hb.current b hboot))
  simp [hboot, hname]

theorem Turn.booted {h h' : Hub} (hturn : Turn h h') (hb : Booted h) : Booted h' := by
  cases hturn with
  | same hboot hboots hlearned hready =>
      refine ⟨hboots ▸ hb.named, hboots ▸ hb.distinct, ?_, fun h => hboot ▸ hb.ready (hready h)⟩
      rw [hboot, hboots, hlearned]
      exact hb.current
  | ready hboot hboots hlearned hset =>
      refine ⟨hboots ▸ hb.named, hboots ▸ hb.distinct, ?_, fun _ => hboot ▸ hset⟩
      rw [hboot, hboots, hlearned]
      exact hb.current
  | @rebooted b hboot hboots hlearned hready hname hnew =>
      refine ⟨?_, ?_, fun c hc => ?_, fun h => hboot ▸ hb.ready (hready h)⟩
      · rw [hboots]
        intro c hc
        rcases List.mem_append.mp hc with hc | hc
        · exact hb.named c hc
        · rw [List.mem_singleton.mp hc]
          exact hname
      · rw [hboots]
        refine List.nodup_append'.mpr ⟨hb.distinct, List.nodup_singleton b, ?_⟩
        rw [List.disjoint_singleton]
        exact hnew
      · rw [hboot] at hc
        have hold := hb.current c hc
        rw [hboots, hlearned, List.getElem?_append_left (List.getElem?_eq_some_iff.mp hold).1]
        exact hold
  | learned hboot hboots hfound _ hready =>
      refine ⟨hboots ▸ hb.named, hboots ▸ hb.distinct, fun c hc => ?_, fun h => (hready h).elim⟩
      rw [hboot] at hc
      cases hc
      rw [hboots]
      exact hfound
  | crashed hboot hboots _ hready _ =>
      refine ⟨hboots ▸ hb.named, hboots ▸ hb.distinct, fun c hc => ?_, fun h => ?_⟩
      · rw [hboot] at hc
        cases hc
      · rw [hready] at h
        cases h

theorem booted_start (maxWorkflows : Nat) : Booted (commandMachine maxWorkflows).start := by
  refine ⟨fun b hb => ?_, List.nodup_nil, fun b hb => ?_, fun hready => ?_⟩
  · cases hb
  · cases hb
  · cases hready

end GaHub.Conductor
