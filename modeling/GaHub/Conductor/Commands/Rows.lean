import GaHub.Conductor.Commands
import GaHub.Conductor.Recovery.Records

namespace GaHub.Conductor

open Lib

def Op.onCommands : Op → Bool
  | .store (.putCommand ..) | .store (.finishCommand ..) | .store (.prepareCommand ..) => true
  | _ => false

-- Nobody leaves a transaction open over the rows of the commands.
structure Settled (p : Process) : Prop where
  sync : Synced p.tracker
  stored : p.tracker.store.isSome = true
  saved : p.tracker.saved.commands = p.tracker.db.commands

structure Grown (bootId : Option String) (commands commands' : Dict OperationId Command) : Prop where
  kept : ∀ o c, commands.get? o = some c → commands'.get? o = some c
  fresh : ∀ o c, commands.get? o = none → commands'.get? o = some c →
    c.state = .pending ∧ c.payload.untouched bootId = true

section Rows

variable {t : Tracker} {op : Op} {bootId : Option String}

theorem Grown.refl (commands : Dict OperationId Command) : Grown bootId commands commands :=
  ⟨fun _ _ h => h, fun o c hnone hsome => by rw [hnone] at hsome; cases hsome⟩

theorem updateCommand_get? (db : Db) (o q : OperationId) (f : Command → Command) :
    (db.updateCommand o f).commands.get? q =
      if q = o then (db.commands.get? o).map f else db.commands.get? q := by
  unfold Db.updateCommand
  cases hrow : db.commands.get? o with
  | none =>
      by_cases hq : q = o
      · simp [hq, hrow]
      · simp [hq]
  | some c => simp only [Dict.get?_set, Option.map_some]

theorem run_commands (hsync : Synced t) (hopen : t.txn.isSome = true) (hop : op.onCommands = false) :
    (t.run op).2.db.commands = t.db.commands := by
  by_cases hstore : op.onStore = true
  · cases op with
    | store op =>
        obtain ⟨s, x, hs, hx⟩ := open_store hopen
        simp only [Tracker.run, hs]
        rcases runStore_db hs op with ⟨hdb, _⟩ | ⟨hdb, _⟩
        · rw [hdb]
        · rw [hdb]
          cases op with
          | saveChat item _ =>
              simp only [StoreOp.apply]
              split
              · rfl
              · split <;> rfl
          | saveSubagentSnapshots _ | saveActivity _ =>
              simp only [StoreOp.apply]
              split <;> rfl
          | checkpoint _ _ _ | defer _ => rfl
          | _ => cases hop
    | _ => cases hstore
  · by_cases hforget : op.forgets = true
    · cases op with
      | forgetWorkflow q allow =>
          rcases forgetWorkflow_cases t q allow with heq | heq
          · rw [Tracker.run, heq]
          · rw [Tracker.run, heq, forget_db (store_of_txn hopen)]
            rfl
      | _ => cases hforget
    · rw [run_db (by simpa using hstore) (by simpa using hforget) (fun _ => hopen) hsync.named]

theorem commands_stable (base : Dict OperationId Command) :
    Stable (fun db => db.commands = base) fun op => op.onCommands = false :=
  ⟨fun _ _ h => h, fun _ _ hsync hopen hop h => (run_commands hsync hopen hop).trans h⟩

theorem grown_stable (rows : List (String × Activity)) (bootId : Option String)
    (base : Dict OperationId Command) :
    Stable (fun db => Grown bootId base db.commands) fun op => op.ofAttempt rows bootId = true := by
  refine ⟨fun _ _ h => h, fun u op hsync hopen hop h => ?_⟩
  cases hput : op.onCommands with
  | false =>
      rw [run_commands hsync hopen hput]
      exact h
  | true =>
      cases op with
      | store op =>
          cases op with
          | putCommand o payload now =>
              obtain ⟨s, x, hs, hx⟩ := open_store hopen
              simp only [Tracker.run, hs]
              rcases runStore_db hs (.putCommand o payload now) with ⟨hdb, _⟩ | ⟨hdb, _⟩
              · rw [hdb]
                exact h
              · rw [hdb]
                simp only [StoreOp.apply]
                split
                · exact h
                · rename_i hnone
                  have habsent : u.db.commands.get? o = none := by simpa using hnone
                  refine ⟨fun q c hq => ?_, fun q c hq hnew => ?_⟩
                  · have hne : q ≠ o := by
                      rintro rfl
                      rw [h.kept q c hq] at habsent
                      cases habsent
                    rw [Dict.get?_set_ne _ _ hne]
                    exact h.kept q c hq
                  · rw [Dict.get?_set] at hnew
                    split at hnew
                    · cases hnew
                      exact ⟨rfl, by simpa [Op.ofAttempt, Op.ofRecord] using hop⟩
                    · exact h.fresh q c hq hnew
          | finishCommand _ _ _ _ | prepareCommand _ _ => cases hop
          | _ => cases hput
      | _ => cases hput

end Rows

section Processes

variable {p p' : Process} {a : ProcessAction}

theorem Settled.of_closed (hp : Synced p.tracker ∧ p.tracker.store.isSome = true)
    (hclosed : p.tracker.closed = true) : Settled p :=
  ⟨hp.1, hp.2, by rw [closed_saved hclosed]⟩

theorem record_closed {s : Setting} {record : Record} {fault : Bool}
    (hsync : Synced p.tracker) (hclosed : p.tracker.closed = true) :
    (p.attempt s record fault).2.tracker.closed = true := by
  cases attempt_ends p s record fault with
  | committed u hruns _ heq =>
      rw [heq]
      exact commit_closed (hruns.inside (hsync.begin hclosed) (begin_txn hclosed)).txn
  | rolledBack u hruns _ heq =>
      rw [heq]
      exact rollback_closed (hruns.inside (hsync.begin hclosed) (begin_txn hclosed)).txn

theorem aside_performs (haside : a.aside = true) (hrecord : ∀ s record fault, a ≠ .record s record fault) :
    p.Performs (fun op => op.onCommands = false) a := by
  cases a with
  | record s record fault => exact absurd rfl (hrecord s record fault)
  | tracker action =>
      cases action with
      | call op fault =>
          cases op with
          | store op => cases op <;> first | rfl | cases haside
          | _ => rfl
      | _ => trivial
  | effect index kept id now => exact fun _ _ _ _ => rfl
  | archive items | backfillArchive items tombstones | backfillActivity rows tombstones => rfl
  | _ => trivial

theorem aside_commands (hp : Settled p) (haside : a.aside = true)
    (hrecord : ∀ s record fault, a ≠ .record s record fault) (hnext : p.next a = some p') :
    Settled p' ∧ p'.tracker.db.commands = p.tracker.db.commands := by
  have hstored := next_stored ⟨hp.sync, hp.stored⟩ hnext
  have htabled : Tabled (fun db => db.commands = p.tracker.db.commands) p.tracker := ⟨rfl, hp.saved⟩
  have hafter := htabled.next (commands_stable _) ⟨hp.sync, hp.stored⟩ (aside_performs haside hrecord) hnext
  exact ⟨⟨hstored.1, hstored.2, hafter.saved.trans hafter.db.symm⟩, hafter.db⟩

theorem next_commands (hp : Settled p) (haside : a.aside = true) (hnext : p.next a = some p') :
    Settled p' ∧ Grown p.bootId p.tracker.db.commands p'.tracker.db.commands := by
  by_cases hrecord : ∃ s record fault, a = .record s record fault
  · obtain ⟨s, record, fault, rfl⟩ := hrecord
    have hnext' := hnext
    simp only [Process.next] at hnext
    split at hnext
    · rename_i hguard
      cases hnext
      have hclosed := (Bool.and_eq_true_iff.mp hguard).1
      have hstored := next_stored ⟨hp.sync, hp.stored⟩ hnext'
      refine ⟨.of_closed hstored (record_closed hp.sync hclosed), ?_⟩
      have hstable := grown_stable (record.activity s.epoch).toList p.bootId p.tracker.db.commands
      have htabled : Tabled (fun db => Grown p.bootId p.tracker.db.commands db.commands) p.tracker :=
        .of_closed (.refl _) hclosed
      have hperforms : p.Performs (fun op => op.ofAttempt (record.activity s.epoch).toList p.bootId = true)
          (.record s record fault) := fun _ hop => hop
      exact (htabled.next hstable ⟨hp.sync, hp.stored⟩ hperforms hnext').db
    · cases hnext
  · obtain ⟨hsettled, hsame⟩ :=
      aside_commands hp haside (fun s record fault heq => hrecord ⟨s, record, fault, heq⟩) hnext
    refine ⟨hsettled, ?_⟩
    rw [hsame]
    exact .refl _

end Processes

-- A body in the open transaction: where it comes to its end, `post` holds.
structure Deferring.Yields (d : Deferring) (saved : Db) (post : Tracker → Prop) : Prop where
  inside : Inside d.2 d.2
  saved : d.2.saved = saved
  post : ∀ effects, d.1 = .ok effects → post d.2

section Bodies

variable {u : Tracker} {saved : Db} {post : Tracker → Prop} {base : Dict OperationId Command}

structure Amid (u : Tracker) (saved : Db) (base : Dict OperationId Command) : Prop where
  sync : Synced u
  txn : u.txn.isSome = true
  saved : u.saved = saved
  commands : u.db.commands = base

theorem Amid.begin {t : Tracker} (hsync : Synced t) (hclosed : t.closed = true) :
    Amid t.begin t.db t.db.commands :=
  ⟨hsync.begin hclosed, begin_txn hclosed, begin_saved hclosed, by rw [(like_begin t).db]⟩

theorem Amid.run {op : Op} (h : Amid u saved base) (hop : op.onCommands = false) : Amid (u.run op).2 saved base := by
  have hinside := run_inside h.sync h.txn op
  exact ⟨hinside.sync, hinside.txn, ((run_within (fun _ => h.txn) h.sync.named).saved h.txn).trans h.saved,
    (run_commands h.sync h.txn hop).trans h.commands⟩

theorem yields_ok {effects : List Effect} (h : Amid u saved base) (hpost : post u) :
    Deferring.Yields (.ok effects, u) saved post :=
  ⟨⟨h.sync, h.txn⟩, h.saved, fun _ _ => hpost⟩

theorem yields_error {e : RecoveryError} (h : Amid u saved base) : Deferring.Yields (.error e, u) saved post := by
  refine ⟨⟨h.sync, h.txn⟩, h.saved, fun effects heq => ?_⟩
  cases heq

theorem yields_step {op : Op} {rest : Reply → Tracker → Deferring} (h : Amid u saved base)
    (hop : op.onCommands = false)
    (hrest : ∀ reply, Amid (u.run op).2 saved base → (rest reply (u.run op).2).Yields saved post) :
    (u.step op rest).Yields saved post := by
  cases hrun : (u.run op).1 with
  | error e =>
      rw [step_error hrun]
      exact yields_error (h.run hop)
  | ok reply =>
      rw [step_eq hrun]
      exact hrest reply (h.run hop)

theorem yields_store {op : StoreOp} {effects : List Effect} (h : Amid u saved base)
    (hpost : ∀ t : Tracker, t.db.commands = (op.apply u.db).commands → post t) :
    (u.step (.store op) fun _ t => (.ok effects, t)).Yields saved post := by
  have hinside := run_inside h.sync h.txn (.store op)
  have hwithin : Within u (u.run (.store op)).2 := run_within (fun _ => h.txn) h.sync.named
  have hsaved := (hwithin.saved h.txn).trans h.saved
  obtain ⟨s, x, hs, hx⟩ := open_store h.txn
  have hdb := runStore_db hs op
  have hstep : (u.run (.store op)) = u.runStore s op := by simp only [Tracker.run, hs]
  rw [← hstep] at hdb
  rcases hdb with ⟨_, e, herror⟩ | ⟨hdb, reply, hok⟩
  · rw [step_error herror]
    refine ⟨⟨hinside.sync, hinside.txn⟩, hsaved, fun effects heq => ?_⟩
    cases heq
  · rw [step_eq hok]
    exact ⟨⟨hinside.sync, hinside.txn⟩, hsaved, fun _ _ => hpost _ (by rw [hdb])⟩

theorem yields_andThen {d : Deferring} {rest : List Effect → Tracker → Deferring}
    (hd : d.Yields saved fun t => t.db.commands = base)
    (hrest : ∀ effects t, Amid t saved base → (rest effects t).Yields saved post) :
    (d.andThen rest).Yields saved post := by
  rcases d with ⟨result, t⟩
  cases result with
  | error e =>
      refine ⟨hd.inside, hd.saved, fun effects heq => ?_⟩
      cases heq
  | ok effects => exact hrest effects t ⟨hd.inside.sync, hd.inside.txn, hd.saved, hd.post effects rfl⟩

theorem onRemoteChat_yields (h : Amid u saved base) (item : ChatItem) (now : Time) :
    (u.onRemoteChat item now).Yields saved fun t => t.db.commands = base := by
  have hsave : ∀ effects t, Amid t saved base →
      (t.step (.store (.saveChat (item.hub now) ((item.hub now).ts.getD now))) fun _ t =>
        ((.ok (effects ++ [.mirror (item.hub now)]), t) : Deferring)).Yields saved
        fun t => t.db.commands = base := fun effects t ht => by
    refine yields_step ht rfl fun _ ht' => yields_ok ht' ht'.commands
  unfold Tracker.onRemoteChat Tracker.noteChat
  dsimp only
  split
  · exact hsave _ _ h
  · split
    · exact hsave _ _ h
    · split
      · exact yields_step h rfl fun _ h' => hsave _ _ h'
      · split
        · exact yields_step h rfl fun _ h' => hsave _ _ h'
        · exact hsave _ _ h

theorem deliver_yields (h : Amid u saved base) (o : OperationId) (payload : CommandPayload) (reply : EngineReply)
    (now : Time) : (u.deliver o payload reply now).Yields saved fun t => ∀ q, t.db.commands.get? q =
      if q = o then (base.get? o).map fun c =>
        { c with state := .succeeded, result := some (.reply reply.body), updatedAt := now }
      else base.get? q := by
  have hfinish : ∀ effects t, Amid t saved base →
      (t.step (.store (.finishCommand o (some .succeeded) (some (.reply reply.body)) now)) fun _ t =>
        ((.ok effects, t) : Deferring)).Yields saved fun t => ∀ q, t.db.commands.get? q =
          if q = o then (base.get? o).map fun c =>
            { c with state := .succeeded, result := some (.reply reply.body), updatedAt := now }
          else base.get? q := fun effects t ht => by
    refine yields_store ht fun t' hdb q => ?_
    rw [hdb, StoreOp.apply, updateCommand_get?, ht.commands]
  unfold Tracker.deliver
  dsimp only
  split
  · split
    · exact yields_andThen (onRemoteChat_yields h _ _) hfinish
    · split
      · exact yields_step h rfl fun _ h' => yields_andThen (onRemoteChat_yields h' _ _) hfinish
      · exact yields_andThen (onRemoteChat_yields h _ _) hfinish
  · split
    · exact hfinish _ _ h
    · split
      · exact hfinish _ _ h
      · split
        · exact yields_step h rfl fun _ h' => hfinish _ _ h'
        · split
          · exact yields_step h rfl fun _ h' => yields_step h' rfl fun _ h'' => hfinish _ _ h''
          · exact hfinish _ _ h

def Tracker.reopenable (t : Tracker) (r : RequestId) : Bool :=
  decide (r ∉ t.tombstones) && (t.find r).any fun w => w.terminalEvent.isSome

-- Whether `submit` reopens the workflow the user writes to.
def Tracker.reopensFor (t : Tracker) (intent : Intent) : Bool :=
  intent.isUserChat && intent.hint.any t.reopenable

theorem reopen_reply (u : Tracker) (r : RequestId) :
    ∃ p, (u.run (.reopen r)).1 = .ok (.reopened p) ∧ p.isSome = u.reopenable r := by
  simp only [Tracker.run, Tracker.reopen, Tracker.reopenable]
  by_cases hburied : r ∈ u.tombstones
  · exact ⟨none, by simp [hburied], by simp [hburied]⟩
  · have hworkflows : (u.touch r).workflows = u.workflows := rfl
    have hfind : (u.touch r).find r = u.find r := Tracker.find_congr hworkflows (u.touch_rows r) r
    simp only [if_neg hburied, hfind]
    cases u.find r with
    | none => exact ⟨none, rfl, by simp⟩
    | some w =>
        dsimp only
        cases hterminal : w.terminalEvent with
        | none => exact ⟨none, by simp, by simp [hterminal]⟩
        | some event => exact ⟨some (w.reopen.payload "reopened"), by simp, by simp [hburied, hterminal]⟩

-- The row a first `submit` puts, marked when it reopened a workflow.
structure FirstRow (intent : Intent) (reopened : Bool) (c : Command) : Prop where
  state : c.state = .pending
  untouched : c.payload.untouched none = true
  intent : c.payload.intent = if reopened then intent.set "reopen" (.bool true) else intent

-- What `submit` makes of the commands when it does not raise.
inductive Submitted (o : OperationId) (intent : Intent) (reopened : Bool)
    (base commands : Dict OperationId Command) : Prop where
  | known {c : Command} (hrow : base.get? o = some c) (hequal : c.payload.intent.equal intent = true)
      (heq : commands = base)
  | created {c : Command} (hnone : base.get? o = none) (hfirst : FirstRow intent reopened c)
      (heq : commands = base.set o c)

theorem submit_yields (h : Amid u saved base) (o : OperationId) (intent : Intent) (fresh : RequestId) (now : Time) :
    (u.submit o intent fresh now).Yields saved fun t =>
      Submitted o intent (u.reopensFor intent) base t.db.commands := by
  unfold Tracker.submit
  rw [h.commands]
  cases hrow : base.get? o with
  | some c =>
      dsimp only
      split
      · exact yields_ok h (.known hrow ‹_› h.commands)
      · exact yields_error h
  | none =>
      have hput : ∀ (payload : CommandPayload) t, Amid t saved base → payload.untouched none = true →
          payload.intent = (if u.reopensFor intent then intent.set "reopen" (.bool true) else intent) →
          (t.step (.store (.putCommand o payload now)) fun _ t => ((.ok [], t) : Deferring)).Yields saved
            fun t => Submitted o intent (u.reopensFor intent) base t.db.commands := by
        intro payload t ht huntouched hintent
        refine yields_store ht fun t' hdb => ?_
        simp only [StoreOp.apply, ht.commands, hrow, Option.isSome_none, Bool.false_eq_true, if_false] at hdb
        refine .created hrow ?_ hdb
        exact ⟨rfl, huntouched, hintent⟩
      have hmint : ∀ t, Amid t saved base → u.reopensFor intent = false →
          (t.step (.admitRequest fresh .submitting none now) fun _ t =>
            t.step (.store (.putCommand o { intent, requestId := some fresh } now)) fun _ t =>
              ((.ok [], t) : Deferring)).Yields saved fun t =>
                Submitted o intent (u.reopensFor intent) base t.db.commands :=
        fun t ht hnot => yields_step ht rfl fun _ ht' => hput _ _ ht' rfl (by simp [hnot])
      dsimp only
      split
      · rename_i hother
        have hnot : u.reopensFor intent = false := by
          have hchat : intent.isUserChat = false := by simpa using hother
          simp [Tracker.reopensFor, hchat]
        exact hput _ _ h rfl (by simp [hnot])
      · rename_i huser
        have huser' : intent.isUserChat = true := by simpa using huser
        cases hhint : intent.hint with
        | none => exact hmint u h (by simp [Tracker.reopensFor, hhint])
        | some hint =>
            have hbranch : u.reopensFor intent = u.reopenable hint := by
              simp [Tracker.reopensFor, huser', hhint]
            dsimp only
            split
            · rename_i hopen
              have hnot : u.reopensFor intent = false := by
                rw [hbranch]
                obtain ⟨w, hw, hterminal⟩ := (Option.any_eq_true _ _).mp hopen
                have hnone : w.terminalEvent = none := by simpa using hterminal
                simp [Tracker.reopenable, hw, hnone]
              exact hput _ _ h rfl (by simp [hnot])
            · obtain ⟨p, hreply, hsome⟩ := reopen_reply u hint
              rw [step_eq hreply]
              have h' : Amid (u.run (.reopen hint)).2 saved base := h.run rfl
              cases p with
              | none => exact hmint _ h' (by rw [hbranch, ← hsome]; rfl)
              | some payload =>
                  have hyes : u.reopensFor intent = true := by
                    rw [hbranch, ← hsome]
                    rfl
                  exact yields_step h' rfl fun _ h'' => hput _ _ h'' rfl (by simp [hyes])

end Bodies

end GaHub.Conductor
