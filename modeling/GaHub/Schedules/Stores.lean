import GaHub.Schedules

namespace GaHub.Schedules

open Lib

namespace SchedulerDomain

variable {σ π : Type} (d : SchedulerDomain σ π) (t : Triggers)

section Trigger

def trigger? (s : σ) : Option Trigger :=
  if d.enabled s then
    match d.type s with
    | .cron => some (.cron (d.cron s))
    | .interval => some (.interval (max 1 (d.intervalMinutes s)))
    | .idle => none
  else none

def Installable (s : σ) : Prop := ∀ trig, d.trigger? s = some trig → t.builds trig = true

theorem trigger?_fired (s : σ) (now : Nat) : d.trigger? (d.fired s now) = d.trigger? s := by
  simp only [trigger?, d.enabled_fired, d.type_fired, d.cron_fired, d.intervalMinutes_fired]

theorem jobId_inj {a b : String} : d.jobId a = d.jobId b ↔ a = b := String.append_right_inj d.jobPrefix

def withJob (jobs : Dict String Trigger) (s : σ) : Dict String Trigger :=
  (d.trigger? s).elim (jobs.erase (d.jobId (d.id s))) fun trig =>
    (jobs.erase (d.jobId (d.id s))).set (d.jobId (d.id s)) trig

theorem installJob_eq {jobs : Dict String Trigger} {s : σ} {addOk : Bool} (hinst : d.Installable t s)
    (hadd : d.trigger? s = none ∨ addOk = true) : d.installJob t jobs s addOk = (d.withJob jobs s, .returned) := by
  unfold installJob withJob
  by_cases hen : d.enabled s = true
  · cases hty : d.type s with
    | idle => simp [trigger?, hen, hty]
    | cron =>
        have htrig : d.trigger? s = some (.cron (d.cron s)) := by simp [trigger?, hen, hty]
        have hvalid : t.fromCrontab (d.cron s) = true := hinst _ htrig
        have hok : addOk = true := hadd.resolve_left (by simp [htrig])
        simp [htrig, hen, hvalid, hok]
    | interval =>
        have htrig : d.trigger? s = some (.interval (max 1 (d.intervalMinutes s))) := by simp [trigger?, hen, hty]
        have hvalid : t.ofMinutes (max 1 (d.intervalMinutes s)) = true := hinst _ htrig
        have hok : addOk = true := hadd.resolve_left (by simp [htrig])
        simp [htrig, hen, hvalid, hok]
  · simp [trigger?, hen]

theorem get?_withJob (jobs : Dict String Trigger) (s : σ) (j : String) :
    (d.withJob jobs s).get? j = if j = d.jobId (d.id s) then d.trigger? s else jobs.get? j := by
  unfold withJob
  cases htrig : d.trigger? s with
  | none => simp [Dict.get?_erase]
  | some trig =>
      simp only [Option.elim_some, Dict.get?_set, Dict.get?_erase]
      split <;> simp_all

theorem get?_withJob_jobId (jobs : Dict String Trigger) (s : σ) (sid : String) :
    (d.withJob jobs s).get? (d.jobId sid) = if sid = d.id s then d.trigger? s else jobs.get? (d.jobId sid) := by
  simp only [get?_withJob, jobId_inj]

end Trigger

section Invariant

variable (schedules : Dict String σ) (jobs : Dict String Trigger)

def Fits : Prop := ∀ j trig, jobs.get? j = some trig →
  ∃ sid s, schedules.get? sid = some s ∧ j = d.jobId sid ∧ d.trigger? s = some trig

def Complete : Prop := ∀ sid s trig, schedules.get? sid = some s → d.trigger? s = some trig →
  jobs.get? (d.jobId sid) = some trig

def Keyed : Prop := ∀ sid s, schedules.get? sid = some s → d.id s = sid

-- An instance and what stands beside it. Where `start` has not returned yet, some of the jobs may be missing.
structure Good (file : Option (List σ)) (jobs : Dict String Trigger) (v : Service σ) : Prop where
  stored : v.schedules.values = file.getD []
  keyed : d.Keyed v.schedules
  installable : ∀ s ∈ v.schedules.values, d.Installable t s
  fits : d.Fits v.schedules jobs
  complete : v.running = true → d.Complete v.schedules jobs
  watched : ∀ run ∈ v.admitted, run ∈ v.watchers ∨ run ∈ v.recorded ∨ run ∈ v.stopped
  accepts : v.stopEvent = false → v.accepting = true

structure Together (s : State σ) : Prop where
  nodup : ((s.file.getD []).map d.id).Nodup
  installable : ∀ row ∈ s.file.getD [], d.Installable t row
  good : ∀ v, s.service = some v → d.Good t s.file s.jobs v

-- The condition on a call: what it persists is persisted, an enabled interval is one that a trigger
-- can be made of, jobs can be added, and a watcher that was not stopped records its run.
def Sound (s : State σ) (c : Call π) : Bool :=
  s.service.all fun v =>
    match c with
    | .load _ | .shutdown _ _ => true
    | .start addOk _ => v.schedules.values.all fun row => (d.trigger? row).isNone || addOk (d.id row)
    | .upsert p fresh persistOk addOk =>
      let sch := d.upsertRow v p fresh
      d.rejected t sch || (persistOk && (d.trigger? sch).all fun trig => t.builds trig && addOk)
    | .delete sid persistOk => decide (sid ∉ v.schedules.keys) || persistOk
    | .fire sid _ submit persistOk _ =>
      v.stopEvent || decide (sid ∉ v.schedules.keys) || submit != .admitted || persistOk
    | .watch _ ending => v.stopEvent || ending == .committed || (ending == .crashed && d.commitsCrash)

end Invariant

section Keyed

variable {d} {schedules : Dict String σ} {jobs : Dict String Trigger}

theorem ids_values (hk : d.Keyed schedules) : schedules.values.map d.id = schedules.keys := by
  rw [Dict.values, Dict.keys, List.map_map]
  apply List.map_congr_left
  intro e he
  exact hk e.1 e.2 (Dict.mem_entries_iff.mp he)

theorem get?_of_mem_values (hk : d.Keyed schedules) {s : σ} (hs : s ∈ schedules.values) :
    schedules.get? (d.id s) = some s := by
  obtain ⟨sid, hget⟩ := Dict.mem_values_iff.mp hs
  rw [hk sid s hget]
  exact hget

theorem Keyed.set (hk : d.Keyed schedules) {sid : String} {s : σ} (hs : d.id s = sid) :
    d.Keyed (schedules.set sid s) := by
  intro k r hget
  rw [Dict.get?_set] at hget
  split at hget
  · obtain rfl : s = r := by simpa using hget
    rw [hs, ‹k = sid›]
  · exact hk k r hget

theorem Keyed.erase (hk : d.Keyed schedules) (sid : String) : d.Keyed (schedules.erase sid) := by
  intro k r hget
  rw [Dict.get?_erase] at hget
  split at hget
  · cases hget
  · exact hk k r hget

theorem mem_values_set {sid : String} {s r : σ} (hr : r ∈ (schedules.set sid s).values) :
    r = s ∨ r ∈ schedules.values := by
  obtain ⟨k, hget⟩ := Dict.mem_values_iff.mp hr
  rw [Dict.get?_set] at hget
  split at hget
  · exact .inl (Option.some.inj hget).symm
  · exact .inr (Dict.mem_values_iff.mpr ⟨k, hget⟩)

theorem mem_values_erase {sid : String} {r : σ} (hr : r ∈ (schedules.erase sid).values) : r ∈ schedules.values := by
  obtain ⟨k, hget⟩ := Dict.mem_values_iff.mp hr
  rw [Dict.get?_erase] at hget
  split at hget
  · cases hget
  · exact Dict.mem_values_iff.mpr ⟨k, hget⟩

theorem loadRows_eq {rows : List σ} (hnd : (rows.map d.id).Nodup) :
    (d.loadRows rows).entries = rows.map fun s => (d.id s, s) := by
  have hkeys : ((rows.map fun s => (d.id s, s)).map Prod.fst).Nodup := by
    rw [List.map_map]
    exact hnd
  have hfold : d.loadRows rows = Dict.ofList (rows.map fun s => (d.id s, s)) := by
    rw [loadRows, Dict.ofList, List.foldl_map]
  rw [hfold]
  exact congrArg Dict.entries (Dict.ofList_entries ⟨rows.map fun s => (d.id s, s), hkeys⟩)

theorem values_loadRows {rows : List σ} (hnd : (rows.map d.id).Nodup) : (d.loadRows rows).values = rows := by
  rw [Dict.values, loadRows_eq hnd, List.map_map]
  exact List.map_id' rows

theorem keyed_loadRows {rows : List σ} (hnd : (rows.map d.id).Nodup) : d.Keyed (d.loadRows rows) := by
  intro sid s hget
  have hmem := Dict.mem_entries_iff.mpr hget
  rw [loadRows_eq hnd] at hmem
  obtain ⟨r, -, hr⟩ := List.mem_map.mp hmem
  cases hr
  rfl

end Keyed

section Jobs

variable {d} {schedules : Dict String σ} {jobs : Dict String Trigger}

theorem fits_empty : d.Fits schedules .empty := by
  intro j trig h
  cases h

theorem Fits.withJob (h : d.Fits schedules jobs) {sid : String} {s : σ} (hs : d.id s = sid) :
    d.Fits (schedules.set sid s) (d.withJob jobs s) := by
  intro j trig hget
  rw [get?_withJob] at hget
  split at hget
  · exact ⟨sid, s, Dict.get?_set_self _ _ _, hs ▸ ‹j = _›, hget⟩
  · obtain ⟨k, r, hr, rfl, htrig⟩ := h j trig hget
    have hne : k ≠ sid := by
      rintro rfl
      exact absurd (congrArg d.jobId hs.symm) ‹_›
    exact ⟨k, r, (Dict.get?_set_ne _ _ hne).trans hr, rfl, htrig⟩

theorem Complete.withJob (h : d.Complete schedules jobs) {sid : String} {s : σ} (hs : d.id s = sid) :
    d.Complete (schedules.set sid s) (d.withJob jobs s) := by
  intro k r trig hr htrig
  rw [get?_withJob_jobId, hs]
  rw [Dict.get?_set] at hr
  by_cases hk : k = sid
  · rw [if_pos hk] at hr ⊢
    obtain rfl : s = r := by simpa using hr
    exact htrig
  · rw [if_neg hk] at hr ⊢
    exact h k r trig hr htrig

theorem Fits.erase (h : d.Fits schedules jobs) (sid : String) :
    d.Fits (schedules.erase sid) (jobs.erase (d.jobId sid)) := by
  intro j trig hget
  rw [Dict.get?_erase] at hget
  split at hget
  · cases hget
  · obtain ⟨k, r, hr, rfl, htrig⟩ := h j trig hget
    have hne : k ≠ sid := fun heq => absurd (congrArg d.jobId heq) ‹_›
    exact ⟨k, r, (Dict.get?_erase_ne _ hne).trans hr, rfl, htrig⟩

theorem Complete.erase (h : d.Complete schedules jobs) (sid : String) :
    d.Complete (schedules.erase sid) (jobs.erase (d.jobId sid)) := by
  intro k r trig hr htrig
  rw [Dict.get?_erase] at hr
  split at hr
  · cases hr
  · rw [Dict.get?_erase_ne _ (fun heq => ‹¬k = sid› (d.jobId_inj.mp heq))]
    exact h k r trig hr htrig

theorem Fits.fired (h : d.Fits schedules jobs) {sid : String} {s : σ} (hs : schedules.get? sid = some s) (now : Nat) :
    d.Fits (schedules.set sid (d.fired s now)) jobs := by
  intro j trig hget
  obtain ⟨k, r, hr, rfl, htrig⟩ := h j trig hget
  by_cases hk : k = sid
  · subst hk
    obtain rfl : s = r := by simpa [hs] using hr
    exact ⟨k, d.fired s now, Dict.get?_set_self _ _ _, rfl, (d.trigger?_fired s now).trans htrig⟩
  · exact ⟨k, r, (Dict.get?_set_ne _ _ hk).trans hr, rfl, htrig⟩

theorem Complete.fired (h : d.Complete schedules jobs) {sid : String} {s : σ} (hs : schedules.get? sid = some s)
    (now : Nat) : d.Complete (schedules.set sid (d.fired s now)) jobs := by
  intro k r trig hr htrig
  rw [Dict.get?_set] at hr
  split at hr
  · obtain rfl : d.fired s now = r := by simpa using hr
    rw [d.trigger?_fired] at htrig
    exact h k s trig (by rw [‹k = sid›]; exact hs) htrig
  · exact h k r trig hr htrig

theorem installAll_eq {t : Triggers} {addOk : String → Bool} {rows : List σ} :
    ∀ {jobs : Dict String Trigger}, (∀ s ∈ rows, d.Installable t s) →
      (∀ s ∈ rows, d.trigger? s = none ∨ addOk (d.id s) = true) →
      d.installAll t addOk jobs rows = (rows.foldl d.withJob jobs, .returned) := by
  induction rows with
  | nil => exact fun _ _ => rfl
  | cons s rest ih =>
      intro jobs hinst hadd
      rw [installAll, d.installJob_eq t (hinst s (by simp)) (hadd s (by simp))]
      exact ih (fun r hr => hinst r (by simp [hr])) fun r hr => hadd r (by simp [hr])

theorem fits_foldl {rows : List σ} (hrows : ∀ s ∈ rows, schedules.get? (d.id s) = some s) :
    ∀ {jobs : Dict String Trigger}, d.Fits schedules jobs → d.Fits schedules (rows.foldl d.withJob jobs) := by
  induction rows with
  | nil => exact fun h => h
  | cons s rest ih =>
      intro jobs h
      have hs := hrows s (by simp)
      have hstep := h.withJob (rfl : d.id s = d.id s)
      rw [Dict.set_of_get? hs] at hstep
      exact ih (fun r hr => hrows r (by simp [hr])) hstep

theorem get?_foldl_withJob {rows : List σ} (hrows : ∀ s ∈ rows, schedules.get? (d.id s) = some s)
    (jobs : Dict String Trigger) :
    ∀ s ∈ rows, (rows.foldl d.withJob jobs).get? (d.jobId (d.id s)) = d.trigger? s := by
  induction rows using List.reverseRecOn with
  | nil => simp
  | append_singleton rows r ih =>
      intro s hs
      rw [List.foldl_append, List.foldl_cons, List.foldl_nil, get?_withJob_jobId]
      by_cases hid : d.id s = d.id r
      · have hget := hrows s hs
        rw [hid, hrows r (by simp)] at hget
        rw [if_pos hid, Option.some.inj hget]
      · have hmem : s ∈ rows := by
          rcases List.mem_append.mp hs with hin | hlast
          · exact hin
          · exact absurd (congrArg d.id (List.mem_singleton.mp hlast)) hid
        rw [if_neg hid]
        exact ih (fun q hq => hrows q (by simp [hq])) s hmem

theorem complete_foldl (hk : d.Keyed schedules) (jobs : Dict String Trigger) :
    d.Complete schedules (schedules.values.foldl d.withJob jobs) := by
  intro sid s trig hs htrig
  have hmem : s ∈ schedules.values := Dict.mem_values_iff.mpr ⟨sid, hs⟩
  have hget := get?_foldl_withJob (fun r hr => get?_of_mem_values hk hr) jobs s hmem
  rw [hk sid s hs] at hget
  rw [hget, htrig]

end Jobs

section Steps

variable {d t} {s : State σ} {v : Service σ}

theorem Together.of_good {file : Option (List σ)} {jobs : Dict String Trigger} (h : d.Good t file jobs v) :
    d.Together t { file, jobs, service := some v } := by
  constructor
  · show ((file.getD []).map d.id).Nodup
    rw [← h.stored, ids_values h.keyed]
    exact v.schedules.keys_nodup
  · intro row hrow
    exact h.installable row (by rw [h.stored]; exact hrow)
  · intro w hw
    cases hw
    exact h

theorem together_start : d.Together t {} := ⟨List.nodup_nil, by simp, by simp⟩

theorem load_together (h : d.Together t s) (persistOk : Bool) : d.Together t (d.load s persistOk).1 := by
  unfold load
  have hfresh : ∀ rows : List σ, (rows.map d.id).Nodup → (∀ row ∈ rows, d.Installable t row) →
      d.Together t { file := some rows, service := some { schedules := d.loadRows rows } } := by
    intro rows hnd hinst
    apply Together.of_good
    have hvalues := values_loadRows hnd
    exact ⟨hvalues, keyed_loadRows hnd, fun row hrow => hinst row (hvalues ▸ hrow), fits_empty, by simp, by simp, by simp⟩
  cases hfile : s.file with
  | some rows =>
      have hnd := h.nodup
      have hinst := h.installable
      rw [hfile] at hnd hinst
      exact hfresh rows hnd hinst
  | none =>
      cases hseed : d.seedDefaults with
      | none =>
          have hkeyed : d.Keyed (.empty : Dict String σ) := by simp [Keyed]
          have hinst : ∀ row ∈ (.empty : Dict String σ).values, d.Installable t row := by simp [Dict.values, Dict.empty]
          exact Together.of_good ⟨rfl, hkeyed, hinst, fits_empty, by simp, by simp, by simp⟩
      | some seed =>
          have hnd : ([seed].map d.id).Nodup := by simp
          have hoff : d.trigger? seed = none := by simp [trigger?, d.seed_disabled seed hseed]
          cases persistOk with
          | false => exact together_start
          | true =>
              have hseeded := hfresh [seed] hnd (by simp [Installable, hoff])
              rw [← values_loadRows hnd] at hseeded
              simpa [values_loadRows hnd] using hseeded

theorem start_spec (h : d.Good t s.file s.jobs v) (addOk : String → Bool) (vetoed : Bool)
    (hsound : ∀ row ∈ v.schedules.values, d.trigger? row = none ∨ addOk (d.id row) = true) :
    (d.start t s v addOk vetoed = (s, .raised) ∧ v.accepting = false ∧ (vetoed = true ∨ v.watchers ≠ [])) ∨
    (∃ w : Service σ, d.start t s v addOk vetoed =
        ({ s with jobs := v.schedules.values.foldl d.withJob s.jobs, service := some w }, .returned) ∧
      w.running = true ∧ d.Good t s.file (v.schedules.values.foldl d.withJob s.jobs) w) := by
  unfold start
  split
  · rename_i hno
    rw [Bool.and_eq_true, Bool.or_eq_true, Bool.not_eq_true', Bool.not_eq_true', List.isEmpty_eq_false_iff] at hno
    exact .inl ⟨rfl, hno⟩
  · right
    have hfits := fits_foldl (fun r hr => get?_of_mem_values h.keyed hr) h.fits
    have hcomplete := complete_foldl h.keyed s.jobs
    cases hacc : v.accepting with
    | true =>
        refine ⟨{ v with running := true }, ?_, rfl, h.stored, h.keyed, h.installable, hfits, fun _ => hcomplete,
          h.watched, h.accepts⟩
        simp only [if_true]
        rw [installAll_eq h.installable hsound]
        rfl
    | false =>
        refine ⟨{ v with stopEvent := false, accepting := true, running := true }, ?_, rfl, h.stored, h.keyed,
          h.installable, hfits, fun _ => hcomplete, h.watched, fun _ => rfl⟩
        simp only [Bool.false_eq_true, if_false]
        rw [installAll_eq h.installable hsound]
        rfl

theorem shutdown_good (h : d.Good t s.file s.jobs v) (admissionStopped ownsSched : Bool) :
    d.Together t (shutdown s v admissionStopped ownsSched).1 := by
  unfold shutdown
  apply Together.of_good
  refine ⟨h.stored, h.keyed, h.installable, ?_, by simp, h.watched, by simp⟩
  cases ownsSched with
  | true => exact fits_empty
  | false => exact h.fits

end Steps

section Edits

variable {d t} {s : State σ} {v : Service σ}

theorem upsert_spec (h : d.Good t s.file s.jobs v) (hv : s.service = some v) {p : π} {fresh : String}
    {persistOk addOk : Bool} (hsound : d.Sound t s (.upsert p fresh persistOk addOk) = true) :
    d.upsert t s v p fresh persistOk addOk = (s, .raised) ∨
    ∃ s', d.upsert t s v p fresh persistOk addOk = (s', .returned) ∧ d.Together t s' := by
  have hid : d.id (d.upsertRow v p fresh) = d.upsertId p fresh := d.id_row _ _ _
  simp only [Sound, hv, Option.all_some] at hsound
  unfold upsert
  by_cases hrej : d.rejected t (d.upsertRow v p fresh) = true
  · exact .inl (by simp [hrej])
  · simp only [hrej, Bool.false_or, Bool.and_eq_true] at hsound
    obtain ⟨hpersist, htrig⟩ := hsound
    have hinst : d.Installable t (d.upsertRow v p fresh) := by
      intro trig ht
      simp only [ht, Option.all_some, Bool.and_eq_true] at htrig
      exact htrig.1
    have hadd : d.trigger? (d.upsertRow v p fresh) = none ∨ addOk = true := by
      cases ht : d.trigger? (d.upsertRow v p fresh) with
      | none => exact .inl rfl
      | some trig =>
          simp only [ht, Option.all_some, Bool.and_eq_true] at htrig
          exact .inr htrig.2
    let w : Service σ := { v with schedules := v.schedules.set (d.upsertId p fresh) (d.upsertRow v p fresh) }
    refine .inr ⟨{ file := some w.schedules.values, jobs := d.withJob s.jobs (d.upsertRow v p fresh), service := some w }, ?_, ?_⟩
    · simp only [hrej, hpersist, d.installJob_eq t hinst hadd]
      rfl
    · apply Together.of_good
      refine ⟨rfl, h.keyed.set hid, ?_, h.fits.withJob hid, fun hrun => (h.complete hrun).withJob hid, h.watched, h.accepts⟩
      intro row hrow
      rcases mem_values_set hrow with rfl | hold
      · exact hinst
      · exact h.installable row hold

theorem delete_spec (h : d.Good t s.file s.jobs v) (hv : s.service = some v) {sid : String} {persistOk : Bool}
    (hsound : d.Sound t s (.delete sid persistOk) = true) :
    d.delete s v sid persistOk = (s, .returned) ∨
    ∃ s', d.delete s v sid persistOk = (s', .returned) ∧ d.Together t s' := by
  simp only [Sound, hv, Option.all_some, Bool.or_eq_true, decide_eq_true_eq] at hsound
  unfold delete
  by_cases hin : sid ∈ v.schedules.keys
  · have hpersist : persistOk = true := hsound.resolve_left (not_not.mpr hin)
    let w : Service σ := { v with schedules := v.schedules.erase sid }
    refine .inr ⟨{ file := some w.schedules.values, jobs := s.jobs.erase (d.jobId sid), service := some w },
      by simp [hin, hpersist, w], ?_⟩
    apply Together.of_good
    exact ⟨rfl, h.keyed.erase sid, fun row hrow => h.installable row (mem_values_erase hrow), h.fits.erase sid,
      fun hrun => (h.complete hrun).erase sid, h.watched, h.accepts⟩
  · exact .inl (by simp only [hin, not_false_eq_true, if_true])

theorem fire_spec (h : d.Good t s.file s.jobs v) (hv : s.service = some v) {sid : String} {now : Nat} {submit : Submit}
    {persistOk : Bool} {run : String} (hsound : d.Sound t s (.fire sid now submit persistOk run) = true) :
    (d.fire s v sid now submit persistOk run).1 = s ∨
    ∃ s', d.fire s v sid now submit persistOk run = (s', .returned) ∧ d.Together t s' := by
  simp only [Sound, hv, Option.all_some, Bool.or_eq_true, decide_eq_true_eq] at hsound
  unfold fire
  by_cases hstop : v.stopEvent = true
  · exact .inl (by simp only [hstop, if_true])
  · cases hrow : v.schedules.get? sid with
    | none => exact .inl (by simp [hstop])
    | some row =>
        have hin : sid ∈ v.schedules.keys := Dict.mem_keys_of_get? hrow
        cases submit with
        | busy => exact .inl (by simp [hstop])
        | failed => exact .inl (by simp [hstop])
        | admitted =>
            have hpersist : persistOk = true := by simpa [hstop, hin] using hsound
            have hacc : v.accepting = true := h.accepts (by simpa using hstop)
            let w : Service σ := { v with
              schedules := v.schedules.set sid (d.fired row now), admitted := v.admitted ++ [run], watchers := v.watchers ++ [run] }
            refine .inr ⟨{ s with file := some w.schedules.values, service := some w }, by simp [hstop, hpersist, hacc, w], ?_⟩
            apply Together.of_good
            have hid : d.id (d.fired row now) = sid := (d.id_fired row now).trans (h.keyed sid row hrow)
            refine ⟨rfl, h.keyed.set hid, ?_, h.fits.fired hrow now, fun hrun => (h.complete hrun).fired hrow now, ?_,
              h.accepts⟩
            · intro r hr
              rcases mem_values_set hr with rfl | hold
              · intro trig ht
                rw [d.trigger?_fired] at ht
                exact h.installable row (Dict.mem_values_iff.mpr ⟨sid, hrow⟩) trig ht
              · exact h.installable r hold
            · intro r hr
              show r ∈ v.watchers ++ [run] ∨ r ∈ v.recorded ∨ r ∈ v.stopped
              rcases List.mem_append.mp hr with hold | hnew
              · rcases h.watched r hold with hw | hrest
                · exact .inl (List.mem_append_left _ hw)
                · exact .inr hrest
              · exact .inl (List.mem_append_right _ hnew)

theorem watch_together (h : d.Good t s.file s.jobs v) (hv : s.service = some v) {run : String} {ending : Ending}
    (hsound : d.Sound t s (.watch run ending) = true) : d.Together t (d.watch s v run ending).1 := by
  have hleft : ∀ r ∈ v.admitted, r ∈ v.watchers.erase run ∨ r = run ∨ r ∈ v.recorded ∨ r ∈ v.stopped := by
    intro r hr
    by_cases heq : r = run
    · exact .inr (.inl heq)
    · rcases h.watched r hr with hw | hrest
      · exact .inl ((List.mem_erase_of_ne heq).mpr hw)
      · exact .inr (.inr hrest)
  simp only [Sound, hv, Option.all_some] at hsound
  unfold watch
  by_cases hstop : v.stopEvent = true
  · simp only [hstop, if_true]
    apply Together.of_good
    refine ⟨h.stored, h.keyed, h.installable, h.fits, h.complete, ?_, by simp⟩
    intro r hr
    rcases hleft r hr with hw | rfl | hrec | hst
    · exact .inl hw
    · exact .inr (.inr (by simp))
    · exact .inr (.inl hrec)
    · exact .inr (.inr (List.mem_append_left _ hst))
  · simp only [hstop, Bool.false_or] at hsound
    simp only [hstop, hsound, if_true]
    apply Together.of_good
    refine ⟨h.stored, h.keyed, h.installable, h.fits, h.complete, ?_, fun _ => h.accepts (by simpa using hstop)⟩
    intro r hr
    rcases hleft r hr with hw | rfl | hrec | hst
    · exact .inl hw
    · exact .inr (.inl (by simp))
    · exact .inr (.inl (List.mem_append_left _ hrec))
    · exact .inr (.inr hst)

end Edits

section Run

-- A call that raises has changed nothing, a start that is allowed returns with every job in place.
def Recovers (s : State σ) : Prop :=
  (∀ p fresh persistOk addOk s', d.Sound t s (.upsert p fresh persistOk addOk) = true →
    d.call t s (.upsert p fresh persistOk addOk) = some (s', .raised) → s' = s) ∧
  (∀ sid persistOk s', d.Sound t s (.delete sid persistOk) = true →
    d.call t s (.delete sid persistOk) = some (s', .raised) → s' = s) ∧
  ∀ addOk vetoed v, s.service = some v → d.Sound t s (.start addOk vetoed) = true →
    (v.accepting = true ∨ (vetoed = false ∧ v.watchers = [])) →
    ∃ s' w, d.call t s (.start addOk vetoed) = some (s', .returned) ∧ s'.service = some w ∧ w.running = true

variable {d t} {s : State σ}

theorem call_together {c : Call π} {s' : State σ} {o : Outcome} (h : d.Together t s) (hsound : d.Sound t s c = true)
    (hcall : d.call t s c = some (s', o)) : d.Together t s' := by
  cases hv : s.service with
  | none =>
      cases c with
      | load persistOk =>
          have hstep := load_together h persistOk
          rw [Option.some.inj hcall] at hstep
          exact hstep
      | _ => simp [call, hv] at hcall
  | some v =>
      have hgood := h.good v hv
      cases c with
      | load persistOk =>
          have hstep := load_together h persistOk
          rw [Option.some.inj hcall] at hstep
          exact hstep
      | start addOk vetoed =>
          simp only [call, hv, Option.map_some, Option.some.injEq] at hcall
          simp only [Sound, hv, Option.all_some, List.all_eq_true, Bool.or_eq_true, Option.isNone_iff_eq_none] at hsound
          rcases start_spec hgood addOk vetoed hsound with ⟨heq, -⟩ | ⟨w, heq, -, hw⟩
          · obtain ⟨rfl, -⟩ := Prod.mk.inj (heq.symm.trans hcall)
            exact h
          · obtain ⟨rfl, -⟩ := Prod.mk.inj (heq.symm.trans hcall)
            exact Together.of_good hw
      | shutdown admissionStopped ownsSched =>
          simp only [call, hv, Option.map_some, Option.some.injEq] at hcall
          have hstep := shutdown_good hgood admissionStopped ownsSched
          rw [hcall] at hstep
          exact hstep
      | upsert p fresh persistOk addOk =>
          simp only [call, hv, Option.map_some, Option.some.injEq] at hcall
          rcases upsert_spec hgood hv hsound with heq | ⟨w, heq, hw⟩
          · obtain ⟨rfl, -⟩ := Prod.mk.inj (heq.symm.trans hcall)
            exact h
          · obtain ⟨rfl, -⟩ := Prod.mk.inj (heq.symm.trans hcall)
            exact hw
      | delete sid persistOk =>
          simp only [call, hv, Option.map_some, Option.some.injEq] at hcall
          rcases delete_spec hgood hv hsound with heq | ⟨w, heq, hw⟩
          · obtain ⟨rfl, -⟩ := Prod.mk.inj (heq.symm.trans hcall)
            exact h
          · obtain ⟨rfl, -⟩ := Prod.mk.inj (heq.symm.trans hcall)
            exact hw
      | fire sid now submit persistOk run =>
          simp only [call, hv, Option.map_some, Option.some.injEq] at hcall
          rcases fire_spec hgood hv hsound with heq | ⟨w, heq, hw⟩
          · rw [hcall] at heq
            obtain rfl : s' = s := heq
            exact h
          · obtain ⟨rfl, -⟩ := Prod.mk.inj (heq.symm.trans hcall)
            exact hw
      | watch run ending =>
          simp only [call, hv, Option.bind_some] at hcall
          split at hcall
          · have hstep := watch_together hgood hv hsound
            rw [Option.some.inj hcall] at hstep
            exact hstep
          · cases hcall

theorem Together.recovers (h : d.Together t s) : d.Recovers t s := by
  refine ⟨?_, ?_, ?_⟩
  · intro p fresh persistOk addOk s' hsound hcall
    cases hv : s.service with
    | none => simp [call, hv] at hcall
    | some v =>
        simp only [call, hv, Option.map_some, Option.some.injEq] at hcall
        rcases upsert_spec (h.good v hv) hv hsound with heq | ⟨w, heq, -⟩
        · exact (Prod.mk.inj (hcall.symm.trans heq)).1
        · cases (Prod.mk.inj (hcall.symm.trans heq)).2
  · intro sid persistOk s' hsound hcall
    cases hv : s.service with
    | none => simp [call, hv] at hcall
    | some v =>
        simp only [call, hv, Option.map_some, Option.some.injEq] at hcall
        rcases delete_spec (h.good v hv) hv hsound with heq | ⟨w, heq, -⟩
        · exact (Prod.mk.inj (hcall.symm.trans heq)).1
        · cases (Prod.mk.inj (hcall.symm.trans heq)).2
  · intro addOk vetoed v hv hsound hallowed
    simp only [Sound, hv, Option.all_some, List.all_eq_true, Bool.or_eq_true, Option.isNone_iff_eq_none] at hsound
    rcases start_spec (h.good v hv) addOk vetoed hsound with ⟨-, hacc, hno⟩ | ⟨w, heq, hrun, -⟩
    · rcases hallowed with hyes | ⟨hveto, hnone⟩
      · rw [hacc] at hyes
        cases hyes
      · rcases hno with hv' | hw
        · rw [hveto] at hv'
          cases hv'
        · exact absurd hnone hw
    · refine ⟨{ s with jobs := v.schedules.values.foldl d.withJob s.jobs, service := some w }, w, ?_, rfl, hrun⟩
      simp only [call, hv, Option.map_some, heq]

end Run

theorem stores_together {as : List (Call π)} {s : State σ}
    (h : ((d.machine t).restrict fun s c => d.Sound t s c = true).run {} as = some s) :
    d.Together t s ∧ d.Recovers t s := by
  have htogether : d.Together t s := by
    refine Machine.run_invariant (P := fun s => d.Together t s) ?_ as together_start h
    intro u c u' hu hnext
    obtain ⟨hsound, hnext⟩ := Machine.restrict_next hnext
    obtain ⟨⟨w, o⟩, hcall, rfl⟩ := Option.map_eq_some_iff.mp hnext
    exact call_together hu hsound hcall
  exact ⟨htogether, htogether.recovers⟩

end SchedulerDomain

def spans : Triggers := ⟨fun _ => true, fun minutes => decide (minutes ≤ 1439999999999)⟩

theorem stores_together_kept :
    ∃ s, taskScheduler.Together spans s ∧ taskScheduler.Recovers spans s ∧ s.jobs.keys = ["task_t"] ∧
      s.service.map Service.watchers = some ["r"] := by
  have hrun : (((taskScheduler.machine spans).restrict fun s c => taskScheduler.Sound spans s c = true).run {}
      [.load true, .start (fun _ => true) false, .upsert { id := some "t" } "" true true,
        .fire "t" 5 .admitted true "r"]).map (fun s => (s.jobs.keys, s.service.map Service.watchers)) =
      some (["task_t"], some ["r"]) := by
    decide
  obtain ⟨s, hs, hlast⟩ := Option.map_eq_some_iff.mp hrun
  have htogether := SchedulerDomain.stores_together _ _ hs
  exact ⟨s, htogether.1, htogether.2, (Prod.mk.inj hlast).1, (Prod.mk.inj hlast).2⟩

-- An interval that no trigger can be made of is rejected after it has been stored.
theorem oversized_interval_stored :
    ∃ s s', (taskScheduler.machine spans).run {} [.load true, .start (fun _ => true) false] = some s ∧
      taskScheduler.call spans s
        (.upsert { id := some "t", type := .interval, intervalMinutes := some 2000000000000 } "" true true) =
        some (s', .raised) ∧
      s'.file ≠ s.file ∧ (taskScheduler.call spans s' (.start (fun _ => true) false)).map Prod.snd = some .raised := by
  have hrun : (((taskScheduler.machine spans).run {} [.load true, .start (fun _ => true) false]).bind fun s =>
      (taskScheduler.call spans s
        (.upsert { id := some "t", type := .interval, intervalMinutes := some 2000000000000 } "" true true)).map
        fun r => (r.2, decide (r.1.file ≠ s.file),
          (taskScheduler.call spans r.1 (.start (fun _ => true) false)).map Prod.snd)) =
      some (.raised, true, some .raised) := by
    decide
  obtain ⟨s, hs, hcall⟩ := Option.bind_eq_some_iff.mp hrun
  obtain ⟨⟨s', o⟩, hs', hlast⟩ := Option.map_eq_some_iff.mp hcall
  obtain ⟨rfl, hrest⟩ := Prod.mk.inj hlast
  obtain ⟨hfile, hstart⟩ := Prod.mk.inj hrest
  exact ⟨s, s', hs, hs', of_decide_eq_true hfile, hstart⟩

end GaHub.Schedules
