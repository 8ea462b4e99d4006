import GaHub.Tokens

namespace GaHub.Tokens

open Lib

section Entries

variable {py : Python} {fields : List (String × Value)} {u : Usage} {e : Entry}

-- What the reading of a record is guarded against.
def Caught (r : Raised) : Prop := r = .typeError ∨ r = .valueError

variable (py) in
-- A record that is no mapping, has no key, or has a time that cannot be read.
def malformed : Entry → Bool
  | .other => true
  | .mapping fields =>
    match fields.lookup "k" with
    | some (.text key) =>
      decide (key = "") || (match readTime py fields with
        | .error .typeError | .error .valueError => true
        | _ => false)
    | _ => true

def WeekFits (day : Date) : Prop := ∃ start stop, weekStart day = .ok start ∧ weekEnd start = .ok stop

variable (py) in
-- A record with a key raises nothing but what is caught: not its time, nor the first of its counts that raises, and
-- there is a date at its time whose week fits.
def Fits : Entry → Prop
  | .other => True
  | .mapping fields => ∀ key, fields.lookup "k" = some (.text key) → key ≠ "" →
    match readTime py fields with
    | .error r => Caught r
    | .ok timestamp => (∀ r, counts py fields = .error r → Caught r) ∧
      ∃ date, py.fromtimestamp timestamp = .ok date ∧ WeekFits date

variable (py) in
-- What a record that is read counts; one whose counts cannot be read counts nothing.
def credit : Entry → Totals
  | .other => {}
  | .mapping fields =>
    match counts py fields with
    | .ok (input, output, cacheCreate, cacheRead) => {
        requests := if input ≠ 0 ∨ cacheCreate ≠ 0 ∨ cacheRead ≠ 0 then 1 else 0
        input, output, cacheCreate, cacheRead
        total := input + output + cacheCreate + cacheRead }
    | .error _ => {}

theorem not_caught_overflow : ¬Caught .overflowError := by
  rintro (h | h) <;> cases h

theorem not_caught_os : ¬Caught .osError := by
  rintro (h | h) <;> cases h

theorem ledgerTotals_cases (py : Python) (fields : List (String × Value)) :
    ((∀ r, counts py fields = .error r → Caught r) ∧ ledgerTotals py fields = .ok (credit py (.mapping fields))) ∨
      ∃ r, counts py fields = .error r ∧ ¬Caught r ∧ ledgerTotals py fields = .error r := by
  simp only [ledgerTotals, credit]
  cases hcounts : counts py fields with
  | ok values => exact .inl ⟨by rintro r ⟨⟩, rfl⟩
  | error r =>
      cases r with
      | typeError => exact .inl ⟨by rintro r ⟨⟩; exact .inl rfl, rfl⟩
      | valueError => exact .inl ⟨by rintro r ⟨⟩; exact .inr rfl, rfl⟩
      | overflowError => exact .inr ⟨_, rfl, not_caught_overflow, rfl⟩
      | osError => exact .inr ⟨_, rfl, not_caught_os, rfl⟩

theorem addEntry_cases (py : Python) (u : Usage) (e : Entry) :
    (malformed py e = true ∧ Fits py e ∧ addEntry py u e = .ok u) ∨
      (malformed py e = false ∧ ∃ key timestamp date, (Fits py e ↔ WeekFits date) ∧
        addEntry py u e = .ok (u.record key (isoformat date) timestamp (credit py e))) ∨
      (malformed py e = false ∧ ¬Fits py e ∧ ∃ r, addEntry py u e = .error r) := by
  cases e with
  | other => exact .inl ⟨rfl, trivial, rfl⟩
  | mapping fields =>
      by_cases hkey : ∃ key, fields.lookup "k" = some (.text key) ∧ key ≠ ""
      · obtain ⟨key, hlookup, hne⟩ := hkey
        have hfits : Fits py (.mapping fields) ↔
            match readTime py fields with
            | .error r => Caught r
            | .ok timestamp => (∀ r, counts py fields = .error r → Caught r) ∧
              ∃ date, py.fromtimestamp timestamp = .ok date ∧ WeekFits date := by
          refine ⟨fun h => h key hlookup hne, fun h key' hlookup' _ => h⟩
        simp only [malformed, addEntry, hlookup, decide_eq_false hne, Bool.false_or, if_neg hne]
        rw [hfits]
        cases htime : readTime py fields with
        | error r =>
            cases r with
            | typeError => exact .inl ⟨rfl, .inl rfl, rfl⟩
            | valueError => exact .inl ⟨rfl, .inr rfl, rfl⟩
            | overflowError => exact .inr (.inr ⟨rfl, not_caught_overflow, _, rfl⟩)
            | osError => exact .inr (.inr ⟨rfl, not_caught_os, _, rfl⟩)
        | ok timestamp =>
            right
            rcases ledgerTotals_cases py fields with ⟨hcaught, htotals⟩ | ⟨r, hcounts, huncaught, htotals⟩
            · simp only [htotals]
              cases hdate : py.fromtimestamp timestamp with
              | error r =>
                  refine .inr ⟨trivial, ?_, r, rfl⟩
                  rintro ⟨-, date, heq, -⟩
                  cases heq
              | ok date =>
                  refine .inl ⟨trivial, key, timestamp, date, ⟨?_, fun hweek => ⟨hcaught, date, rfl, hweek⟩⟩, rfl⟩
                  rintro ⟨-, date', heq, hweek⟩
                  exact Except.ok.inj heq ▸ hweek
            · simp only [htotals]
              exact .inr ⟨trivial, fun h => huncaught (h.1 r hcounts), r, rfl⟩
      · have hfits : Fits py (.mapping fields) := fun key hlookup hne => absurd ⟨key, hlookup, hne⟩ hkey
        refine .inl ⟨?_, hfits, ?_⟩
        · simp only [malformed]
          split
          · rename_i key hlookup
            have hnil : key = "" := by
              by_contra hne
              exact hkey ⟨key, hlookup, hne⟩
            rw [decide_eq_true hnil, Bool.true_or]
          · rfl
        · simp only [addEntry]
          split
          · rename_i key hlookup
            have hnil : key = "" := by
              by_contra hne
              exact hkey ⟨key, hlookup, hne⟩
            rw [if_pos hnil]
          · rfl

end Entries

section Runs

theorem bind_ok {α β : Type} {x : Except Raised α} {f : α → Except Raised β} {b : β} (h : (x >>= f) = .ok b) :
    ∃ a, x = .ok a ∧ f a = .ok b := by
  cases x with
  | error r => cases h
  | ok a => exact ⟨a, rfl, h⟩

variable {py : Python} {entries : List Entry} {u u' : Usage} {k : String}

theorem strptime_iso (d : Date) : strptime (isoformat d).toList = some d := by
  rw [isoformat, String.toList_ofList, strptime_isoformat]

theorem isoformat_inj {d d' : Date} (h : isoformat d = isoformat d') : d = d' := by
  have hboth := strptime_iso d
  rw [h, strptime_iso] at hboth
  exact (Option.some.inj hboth).symm

def DateKeys {ν : Type} (days : Dict String ν) : Prop := ∀ k ∈ days.keys, ∃ d, k = isoformat d

def AllFit {ν : Type} (days : Dict String ν) : Prop := ∀ d, isoformat d ∈ days.keys → WeekFits d

theorem mem_keys_set {ν : Type} (days : Dict String ν) (j : String) (v : ν) :
    k ∈ (days.set j v).keys ↔ k ∈ days.keys ∨ k = j := by
  rw [Dict.mem_keys_iff, Dict.mem_keys_iff, Dict.get?_set]
  by_cases h : k = j
  · rw [if_pos h]
    exact iff_of_true ⟨v, rfl⟩ (.inr h)
  · rw [if_neg h]
    exact (or_iff_left h).symm

theorem allFit_set {ν : Type} (days : Dict String ν) (d : Date) (v : ν) :
    AllFit (days.set (isoformat d) v) ↔ AllFit days ∧ WeekFits d := by
  constructor
  · intro h
    exact ⟨fun d' hd => h d' ((mem_keys_set days _ v).mpr (.inl hd)), h d ((mem_keys_set days _ v).mpr (.inr rfl))⟩
  · rintro ⟨hall, hfits⟩ d' hd
    rcases (mem_keys_set days _ v).mp hd with hd | hd
    · exact hall d' hd
    · exact isoformat_inj hd ▸ hfits

theorem dateKeys_set {ν : Type} {days : Dict String ν} (h : DateKeys days) (d : Date) (v : ν) :
    DateKeys (days.set (isoformat d) v) := by
  intro k hk
  rcases (mem_keys_set days _ v).mp hk with hk | hk
  · exact h k hk
  · exact ⟨d, hk⟩

-- A run raises at the first record that does not fit; what has a week that does not fit is found among the days later.
theorem run_iff (py : Python) (entries : List Entry) (u : Usage) :
    (∃ u', entries.foldlM (addEntry py) u = .ok u' ∧ AllFit u'.days) ↔ AllFit u.days ∧ ∀ e ∈ entries, Fits py e := by
  induction entries generalizing u with
  | nil => exact ⟨fun ⟨u', hrun, hfit⟩ => ⟨Except.ok.inj hrun ▸ hfit, by rintro _ ⟨⟩⟩, fun h => ⟨u, rfl, h.1⟩⟩
  | cons e entries ih =>
      rw [List.forall_mem_cons, List.foldlM_cons]
      rcases addEntry_cases py u e with ⟨-, hfits, hstep⟩ | ⟨-, key, timestamp, date, hfits, hstep⟩ |
        ⟨-, hfits, r, hstep⟩
      · rw [hstep]
        show (∃ u', entries.foldlM (addEntry py) u = .ok u' ∧ AllFit u'.days) ↔ _
        rw [ih, and_iff_right hfits]
      · rw [hstep]
        show (∃ u', entries.foldlM (addEntry py) (u.record key (isoformat date) timestamp (credit py e)) = .ok u' ∧
          AllFit u'.days) ↔ _
        rw [ih, hfits, ← and_assoc]
        exact and_congr_left fun _ => allFit_set u.days date _
      · rw [hstep]
        refine iff_of_false ?_ fun h => hfits h.2.1
        rintro ⟨u', hrun, -⟩
        cases hrun

theorem run_filter (py : Python) (entries : List Entry) (u : Usage) :
    (entries.filter fun e => !malformed py e).foldlM (addEntry py) u = entries.foldlM (addEntry py) u := by
  induction entries generalizing u with
  | nil => rfl
  | cons e entries ih =>
      rw [List.filter_cons, List.foldlM_cons]
      rcases addEntry_cases py u e with ⟨hbad, -, hstep⟩ | ⟨hgood, -⟩ | ⟨hgood, -⟩
      · rw [hbad, hstep]
        exact ih u
      · rw [hgood, Bool.not_false, if_pos rfl, List.foldlM_cons]
        exact congrArg (addEntry py u e >>= ·) (funext ih)
      · rw [hgood, Bool.not_false, if_pos rfl, List.foldlM_cons]
        exact congrArg (addEntry py u e >>= ·) (funext ih)

theorem count_add (left right : Option Totals) (c : Counter) :
    (addTotals left right).count c = (normaliseTotals left).count c + (normaliseTotals right).count c := by
  cases c <;> rfl

theorem count_normalise (value : Option Totals) (c : Counter) :
    (normaliseTotals value).count c = (value.map fun t => t.count c).getD 0 := by
  cases value with
  | none => cases c <;> rfl
  | some t => rfl

def credits (py : Python) (entries : List Entry) (c : Counter) : Nat :=
  ((entries.filter fun e => !malformed py e).map fun e => (credit py e).count c).sum

theorem record_counts (u : Usage) (key dateKey : String) (timestamp : Int) (totals : Totals) (c : Counter) :
    let u' := u.record key dateKey timestamp totals
    u'.allTime.count c = u.allTime.count c + totals.count c ∧
      u'.days.tally (·.count c) = u.days.tally (·.count c) + totals.count c ∧
      u'.sessions.tally (·.totals.count c) = u.sessions.tally (·.totals.count c) + totals.count c := by
  refine ⟨count_add _ _ c, Dict.tally_set _ _ _ ?_, Dict.tally_set _ _ _ ?_⟩
  · rw [count_add, count_normalise]
    rfl
  · show (addTotals _ _).count c = _
    rw [count_add, count_normalise, Option.map_map]
    rfl

theorem run_counts (hrun : entries.foldlM (addEntry py) u = .ok u') (hkeys : DateKeys u.days) (c : Counter) :
    DateKeys u'.days ∧ u'.allTime.count c = u.allTime.count c + credits py entries c ∧
      u'.days.tally (·.count c) = u.days.tally (·.count c) + credits py entries c ∧
      u'.sessions.tally (·.totals.count c) = u.sessions.tally (·.totals.count c) + credits py entries c := by
  induction entries generalizing u with
  | nil =>
      rw [← Except.ok.inj hrun]
      exact ⟨hkeys, rfl, rfl, rfl⟩
  | cons e entries ih =>
      rw [List.foldlM_cons] at hrun
      rw [credits, List.filter_cons]
      rcases addEntry_cases py u e with ⟨hbad, -, hstep⟩ | ⟨hgood, key, timestamp, date, -, hstep⟩ | ⟨-, -, r, hstep⟩
      · rw [hstep] at hrun
        rw [hbad]
        exact ih hrun hkeys
      · rw [hstep] at hrun
        obtain ⟨hkeys', hall, hdays, hsessions⟩ := ih hrun (dateKeys_set hkeys date _)
        obtain ⟨hone, hday, hsession⟩ := record_counts u key (isoformat date) timestamp (credit py e) c
        rw [hgood, Bool.not_false, if_pos rfl, List.map_cons, List.sum_cons, ← credits, ← Nat.add_assoc, ← Nat.add_assoc,
          ← Nat.add_assoc]
        exact ⟨hkeys', hall.trans (by rw [hone]), hdays.trans (by rw [hday]), hsessions.trans (by rw [hsession])⟩
      · rw [hstep] at hrun
        cases hrun

end Runs

section Weeks

variable {es : List (String × Totals)} {grouped grouped' : Dict String Totals} {rows : List WeekRow}

def SundaysFit (weeks : Dict String Totals) : Prop :=
  ∀ start, isoformat start ∈ weeks.keys → ∃ stop, weekEnd start = .ok stop

theorem addDay_iso (grouped : Dict String Totals) (d : Date) (totals : Totals) : addDay grouped (isoformat d, totals) =
    weekStart d >>= fun start =>
      .ok (grouped.set (isoformat start) (addTotals (grouped.get? (isoformat start)) (some totals))) := by
  rw [addDay, strptime_iso]
  rfl

theorem weekRow_iso (start : Date) (totals : Totals) : weekRow (isoformat start, totals) =
    weekEnd start >>= fun stop =>
      .ok { weekStart := isoformat start, weekEnd := isoformat stop, rated := withRate totals } := by
  rw [weekRow, strptime_iso]
  rfl

theorem group_iff (hkeys : ∀ e ∈ es, ∃ d, e.1 = isoformat d) :
    (∃ grouped', es.foldlM addDay grouped = .ok grouped' ∧ SundaysFit grouped') ↔
      SundaysFit grouped ∧ ∀ e ∈ es, ∀ d, e.1 = isoformat d → WeekFits d := by
  induction es generalizing grouped with
  | nil => exact ⟨fun ⟨g, hrun, hfit⟩ => ⟨Except.ok.inj hrun ▸ hfit, by rintro _ ⟨⟩⟩, fun h => ⟨grouped, rfl, h.1⟩⟩
  | cons e es ih =>
      obtain ⟨k, totals⟩ := e
      obtain ⟨hkey, hrest⟩ := List.forall_mem_cons.mp hkeys
      obtain ⟨d, rfl⟩ : ∃ d, k = isoformat d := hkey
      have hfirst : (∀ d', isoformat d = isoformat d' → WeekFits d') ↔ WeekFits d :=
        ⟨fun h => h d rfl, fun h d' heq => isoformat_inj heq ▸ h⟩
      rw [List.forall_mem_cons, List.foldlM_cons, addDay_iso, hfirst]
      cases hstart : weekStart d with
      | error r =>
          refine iff_of_false ?_ ?_
          · rintro ⟨g, hrun, -⟩
            cases hrun
          · rintro ⟨-, ⟨start, stop, heq, -⟩, -⟩
            cases hstart.symm.trans heq
      | ok start =>
          have hweek : WeekFits d ↔ ∃ stop, weekEnd start = .ok stop := by
            constructor
            · rintro ⟨start', stop, heq, hstop⟩
              exact ⟨stop, Except.ok.inj (hstart.symm.trans heq) ▸ hstop⟩
            · rintro ⟨stop, hstop⟩
              exact ⟨start, stop, hstart, hstop⟩
          show (∃ g, es.foldlM addDay (grouped.set (isoformat start) _) = .ok g ∧ SundaysFit g) ↔ _
          rw [ih hrest, hweek, ← and_assoc]
          refine and_congr_left fun _ => ⟨fun h => ⟨fun s hs => ?_, ?_⟩, fun h s hs => ?_⟩
          · exact h s ((mem_keys_set _ _ _).mpr (.inl hs))
          · exact h start ((mem_keys_set _ _ _).mpr (.inr rfl))
          · rcases (mem_keys_set _ _ _).mp hs with hs | hs
            · exact h.1 s hs
            · exact isoformat_inj hs ▸ h.2

theorem group_counts (hkeys : ∀ e ∈ es, ∃ d, e.1 = isoformat d) (hgrouped : DateKeys grouped)
    (hrun : es.foldlM addDay grouped = .ok grouped') (c : Counter) : DateKeys grouped' ∧
      grouped'.tally (·.count c) = grouped.tally (·.count c) + (es.map fun e => e.2.count c).sum := by
  induction es generalizing grouped with
  | nil =>
      rw [← Except.ok.inj hrun]
      exact ⟨hgrouped, rfl⟩
  | cons e es ih =>
      obtain ⟨k, totals⟩ := e
      obtain ⟨hkey, hrest⟩ := List.forall_mem_cons.mp hkeys
      obtain ⟨d, rfl⟩ : ∃ d, k = isoformat d := hkey
      rw [List.foldlM_cons, addDay_iso] at hrun
      obtain ⟨mid, hday, hrun⟩ := bind_ok hrun
      obtain ⟨start, -, hset⟩ := bind_ok hday
      rw [← Except.ok.inj hset] at hrun
      obtain ⟨hkeys', hsum⟩ := ih hrest (dateKeys_set hgrouped start _) hrun
      refine ⟨hkeys', hsum.trans ?_⟩
      have htally : (grouped.set (isoformat start) (addTotals (grouped.get? (isoformat start)) (some totals))).tally
          (·.count c) = grouped.tally (·.count c) + totals.count c := by
        refine Dict.tally_set _ _ _ ?_
        rw [count_add, count_normalise]
        rfl
      rw [htally, List.map_cons, List.sum_cons, Nat.add_assoc]

theorem rows_iff (hkeys : ∀ e ∈ es, ∃ d, e.1 = isoformat d) : (∃ rows, es.mapM weekRow = .ok rows) ↔
    ∀ e ∈ es, ∀ start, e.1 = isoformat start → ∃ stop, weekEnd start = .ok stop := by
  induction es with
  | nil => exact iff_of_true ⟨[], rfl⟩ (by rintro _ ⟨⟩)
  | cons e es ih =>
      obtain ⟨k, totals⟩ := e
      obtain ⟨hkey, hrest⟩ := List.forall_mem_cons.mp hkeys
      obtain ⟨d, rfl⟩ : ∃ d, k = isoformat d := hkey
      have hfirst : (∀ start, isoformat d = isoformat start → ∃ stop, weekEnd start = .ok stop) ↔
          ∃ stop, weekEnd d = .ok stop :=
        ⟨fun h => h d rfl, fun h d' heq => isoformat_inj heq ▸ h⟩
      rw [List.forall_mem_cons, List.mapM_cons, weekRow_iso, hfirst, ← ih hrest]
      cases weekEnd d with
      | error r =>
          refine iff_of_false ?_ ?_
          · rintro ⟨rows, hrun⟩
            cases hrun
          · rintro ⟨⟨stop, hstop⟩, -⟩
            cases hstop
      | ok stop =>
          rw [and_iff_right ⟨stop, rfl⟩]
          cases es.mapM weekRow with
          | error r =>
              refine iff_of_false ?_ ?_
              · rintro ⟨rows, hrun⟩
                cases hrun
              · rintro ⟨rows, hrun⟩
                cases hrun
          | ok rows => exact iff_of_true ⟨_, rfl⟩ ⟨rows, rfl⟩

theorem weekRow_totals {e : String × Totals} {row : WeekRow} (h : weekRow e = .ok row) : row.rated.totals = e.2 := by
  rw [weekRow] at h
  split at h
  · cases h
  · obtain ⟨stop, -, hrow⟩ := bind_ok h
    rw [← Except.ok.inj hrow]
    rfl

theorem rows_counts (hrun : es.mapM weekRow = .ok rows) (c : Counter) :
    (rows.map fun row => row.rated.totals.count c).sum = (es.map fun e => e.2.count c).sum := by
  induction es generalizing rows with
  | nil =>
      rw [← Except.ok.inj hrun]
      rfl
  | cons e es ih =>
      rw [List.mapM_cons] at hrun
      obtain ⟨row, hrow, hrun⟩ := bind_ok hrun
      obtain ⟨rest, hrest, hrun⟩ := bind_ok hrun
      rw [← Except.ok.inj hrun, List.map_cons, List.sum_cons, List.map_cons, List.sum_cons, ih hrest,
        weekRow_totals hrow]

theorem sorted_perm {ν : Type} (d : Dict String ν) : (sorted d).Perm d.entries := List.mergeSort_perm _ _

theorem sum_sorted {ν : Type} (d : Dict String ν) (f : ν → Nat) : ((sorted d).map fun e => f e.2).sum = d.tally f := by
  rw [Dict.tally_eq]
  exact ((sorted_perm d).map _).sum_eq

theorem dateKeys_sorted {ν : Type} {d : Dict String ν} (h : DateKeys d) : ∀ e ∈ sorted d, ∃ day, e.1 = isoformat day :=
  fun _ he => h _ (List.mem_map_of_mem ((sorted_perm d).mem_iff.mp he))

-- The weeks can be told exactly when there is a whole one for each day, and then they count what the days count.
theorem weeksFromDays_spec {days : Dict String Totals} (h : DateKeys days) :
    ((∃ rows, weeksFromDays days = .ok rows) ↔ AllFit days) ∧ ∀ rows, weeksFromDays days = .ok rows → ∀ c,
      (rows.map fun row => row.rated.totals.count c).sum = days.tally (·.count c) := by
  have hentries : ∀ e ∈ days.entries, ∃ d, e.1 = isoformat d := fun _ he => h _ (List.mem_map_of_mem he)
  have hempty : DateKeys (Dict.empty : Dict String Totals) := by rintro _ ⟨⟩
  have hfit : AllFit days ↔ ∀ e ∈ days.entries, ∀ d, e.1 = isoformat d → WeekFits d := by
    constructor
    · intro hall e he d heq
      exact hall d (heq ▸ List.mem_map_of_mem he)
    · intro hall d hd
      obtain ⟨e, he, heq⟩ := List.mem_map.mp hd
      exact hall e he d heq
  have hgroup := @group_iff days.entries Dict.empty hentries
  rw [and_iff_right (by rintro _ ⟨⟩), ← hfit] at hgroup
  unfold weeksFromDays
  cases hrun : days.entries.foldlM addDay Dict.empty with
  | error r =>
      refine ⟨iff_of_false ?_ ?_, ?_⟩
      · rintro ⟨rows, heq⟩
        cases heq
      · intro hall
        obtain ⟨g, heq, -⟩ := hgroup.mpr hall
        cases hrun.symm.trans heq
      · rintro rows heq
        cases heq
  | ok grouped =>
      obtain ⟨hkeys, -⟩ := group_counts hentries hempty hrun .total
      have hsunday : SundaysFit grouped ↔
          ∀ e ∈ sorted grouped, ∀ start, e.1 = isoformat start → ∃ stop, weekEnd start = .ok stop := by
        constructor
        · intro hall e he start heq
          exact hall start (heq ▸ List.mem_map_of_mem ((sorted_perm grouped).mem_iff.mp he))
        · intro hall start hstart
          obtain ⟨e, he, heq⟩ := List.mem_map.mp hstart
          exact hall e ((sorted_perm grouped).mem_iff.mpr he) start heq
      constructor
      · show (∃ rows, (sorted grouped).mapM weekRow = .ok rows) ↔ _
        rw [rows_iff (dateKeys_sorted hkeys), ← hsunday, ← hgroup]
        constructor
        · exact fun hall => ⟨grouped, hrun, hall⟩
        · rintro ⟨g, heq, hall⟩
          exact Except.ok.inj (hrun.symm.trans heq) ▸ hall
      · intro rows heq c
        obtain ⟨-, hsum⟩ := group_counts hentries hempty hrun c
        rw [rows_counts heq c, sum_sorted grouped fun t => t.count c, hsum, Dict.tally_empty, Nat.zero_add, Dict.tally_eq]

end Weeks

section Statistics

variable (py : Python) (title : String → Option String) (now : Int) (entries : List Entry)

-- There is a date now, and its week fits.
def ClockFits : Prop := ∃ date, py.fromtimestamp now = .ok date ∧ WeekFits date

-- The statistics are there, the same as without the malformed records, and every counter of all time is what the
-- records count, and as much as the days, the weeks and the sessions count.
def Conserves : Prop :=
  ∃ usage stats, ledgerUsage py entries = .ok usage ∧ nativeLedgerUsage py title now (some entries) = .ok stats ∧
    nativeLedgerUsage py title now (some (entries.filter fun e => !malformed py e)) = .ok stats ∧
    ∀ c, stats.allTime.totals.count c = credits py entries c ∧
      (stats.days.map fun row => row.rated.totals.count c).sum = stats.allTime.totals.count c ∧
      (stats.weeks.map fun row => row.rated.totals.count c).sum = stats.allTime.totals.count c ∧
      (usage.sessions.values.map fun session => session.totals.count c).sum = stats.allTime.totals.count c

variable {py title now entries}

theorem weekDates_iff : (∃ dates, weekDates py now = .ok dates) ↔ ClockFits py now := by
  constructor
  · rintro ⟨dates, h⟩
    obtain ⟨date, hdate, h⟩ := bind_ok h
    obtain ⟨start, hstart, h⟩ := bind_ok h
    obtain ⟨stop, hstop, -⟩ := bind_ok h
    exact ⟨date, hdate, start, stop, hstart, hstop⟩
  · rintro ⟨date, hdate, start, stop, hstart, hstop⟩
    refine ⟨(isoformat start, isoformat stop), ?_⟩
    rw [weekDates, hdate]
    show weekStart date >>= _ = _
    rw [hstart]
    show weekEnd start >>= _ = _
    rw [hstop]
    rfl

theorem weeklyResponse_cases (available : Bool) (usage : Usage) :
    (∃ rows stats, weeksFromDays usage.days = .ok rows ∧ ClockFits py now ∧
      weeklyResponse py title available usage now = .ok stats ∧ stats.allTime.totals = usage.allTime ∧
      stats.weeks = rows ∧ stats.days = (sorted usage.days).map fun e => { date := e.1, rated := withRate e.2 }) ∨
      ¬((∃ rows, weeksFromDays usage.days = .ok rows) ∧ ClockFits py now) ∧
        ∀ stats, weeklyResponse py title available usage now ≠ .ok stats := by
  unfold weeklyResponse
  cases hweeks : weeksFromDays usage.days with
  | error r =>
      refine .inr ⟨?_, ?_⟩
      · rintro ⟨⟨rows, heq⟩, -⟩
        cases heq
      · rintro stats heq
        cases heq
  | ok rows =>
      cases hdates : weekDates py now with
      | error r =>
          refine .inr ⟨?_, ?_⟩
          · rintro ⟨-, hclock⟩
            obtain ⟨dates, heq⟩ := weekDates_iff.mpr hclock
            cases hdates.symm.trans heq
          · rintro stats heq
            cases heq
      | ok dates => exact .inl ⟨rows, _, rfl, weekDates_iff.mp ⟨dates, hdates⟩, rfl, rfl, rfl, rfl⟩

-- The statistics conserve the ledger exactly when no conversion raises what is not caught and every week is one of the
-- calendar, that of now too.
theorem conserves_iff (py : Python) (title : String → Option String) (now : Int) (entries : List Entry) :
    Conserves py title now entries ↔ ClockFits py now ∧ ∀ e ∈ entries, Fits py e := by
  have hstart : AllFit ({} : Usage).days := by rintro d ⟨⟩
  have hkeys : DateKeys ({} : Usage).days := by rintro k ⟨⟩
  have hrun := run_iff py entries {}
  rw [and_iff_right hstart] at hrun
  have hsame : ledgerUsage py (entries.filter fun e => !malformed py e) = ledgerUsage py entries := run_filter py entries {}
  cases husage : ledgerUsage py entries with
  | error r =>
      refine iff_of_false ?_ fun h => ?_
      · rintro ⟨usage, -, heq, -⟩
        cases husage.symm.trans heq
      · obtain ⟨usage, heq, -⟩ := hrun.mpr h.2
        cases husage.symm.trans heq
  | ok usage =>
      have hfit : AllFit usage.days ↔ ∀ e ∈ entries, Fits py e := by
        rw [← hrun]
        constructor
        · exact fun hall => ⟨usage, husage, hall⟩
        · rintro ⟨usage', heq, hall⟩
          exact Except.ok.inj (husage.symm.trans heq) ▸ hall
      have hresponse : ∀ es, ledgerUsage py es = .ok usage →
          nativeLedgerUsage py title now (some es) = weeklyResponse py title true usage now := by
        intro es hes
        rw [nativeLedgerUsage, hes]
        rfl
      obtain ⟨hdays, -⟩ := run_counts husage hkeys .total
      obtain ⟨hweeks, hsum⟩ := weeksFromDays_spec hdays
      rcases @weeklyResponse_cases py title now true usage with
        ⟨rows, stats, hrows, hclock, hstats, hall, hstatsWeeks, hstatsDays⟩ | ⟨hnot, hnone⟩
      · refine iff_of_true ⟨usage, stats, husage, (hresponse _ husage).trans hstats,
          (hresponse _ (hsame.trans husage)).trans hstats, fun c => ?_⟩ ⟨hclock, hfit.mp (hweeks.mp ⟨rows, hrows⟩)⟩
        obtain ⟨-, hcount, hdaySum, hsessionSum⟩ := run_counts husage hkeys c
        have hzero : ({} : Totals).count c = 0 := by cases c <;> rfl
        rw [show ({} : Usage).allTime = {} from rfl, hzero, Nat.zero_add] at hcount
        rw [show ({} : Usage).days = Dict.empty from rfl, Dict.tally_empty, Nat.zero_add] at hdaySum
        rw [show ({} : Usage).sessions = Dict.empty from rfl, Dict.tally_empty, Nat.zero_add] at hsessionSum
        rw [hall, hstatsWeeks, hstatsDays, hcount, hsum rows hrows c, hdaySum, List.map_map]
        refine ⟨rfl, ?_, rfl, hsessionSum⟩
        rw [← hdaySum]
        exact sum_sorted usage.days fun t => t.count c
      · refine iff_of_false ?_ fun h => hnot ⟨hweeks.mpr (hfit.mpr h.2), h.1⟩
        rintro ⟨usage', stats, -, heq, -⟩
        exact hnone stats ((hresponse _ husage).symm.trans heq)

-- One record with an infinite count, which a ledger may hold as `1e999`: nothing is told of any record.
theorem infinite_count_raises :
    let py : Python := ⟨fun _ => none, fun _ => none, fun _ => .ok ⟨2024, 1, 1, by decide⟩⟩
    let entries : List Entry := [.mapping [("k", .text "GA-a"), ("t", .float (.finite 1)), ("o", .int 5)],
      .mapping [("k", .text "GA-b"), ("t", .float (.finite 1)), ("i", .float .inf)]]
    nativeLedgerUsage py (fun _ => none) 0 (some entries) = .error .overflowError ∧
      ¬Conserves py (fun _ => none) 0 entries := by
  refine ⟨rfl, ?_⟩
  rintro ⟨usage, stats, h, -⟩
  cases h

end Statistics

end GaHub.Tokens
