import GaHub.Transport

namespace GaHub.Transport

variable {Msg : Type} {reconnectDelayMs : Nat → Option Int}

namespace State

-- What keeps a running object going: its socket, its timer, and the calls that will ask for one of the two.
def load (s : State Msg) : Nat :=
  s.ws.toList.length + s.reconnectTimer.toList.length +
    s.stack.countP fun frame => decide (frame.attempt = some s.generation)

-- Nothing outside the object's own fields is left over, and a running object has `n` things to go on with.
structure Sound (n : Nat) (s : State Msg) : Prop where
  sockets : ∀ w x, s.sockets[w]? = some x → x.live = true → s.ws = some w
  current : ∀ w, s.ws = some w → s.running = true ∧ ∃ x, s.sockets[w]? = some x ∧ x.generation = s.generation
  timers : ∀ t x, s.timers[t]? = some x → x.pending = true → s.reconnectTimer = some t
  armed : ∀ t, s.reconnectTimer = some t →
    s.running = true ∧ ∃ x, s.timers[t]? = some x ∧ x.pending = true ∧ x.generation = s.generation
  frames : ∀ frame ∈ s.stack, ∀ g, frame.attempt = some g → g ≤ s.generation
  load : s.running = true → s.load = n

variable {s : State Msg} {n : Nat}

theorem sound_start : Sound 1 ({} : State Msg) where
  sockets := by simp
  current := by simp
  timers := by simp
  armed := by simp
  frames := by simp
  load := by simp

namespace Sound

theorem ws_none (h : Sound 0 s) (hrun : s.running = true) : s.ws = none := by
  have hload := h.load hrun
  cases hws : s.ws with
  | none => rfl
  | some w => simp [State.load, hws] at hload

theorem timer_none (h : Sound 0 s) (hrun : s.running = true) : s.reconnectTimer = none := by
  have hload := h.load hrun
  cases htimer : s.reconnectTimer with
  | none => rfl
  | some t => simp [State.load, htimer] at hload

theorem frames_none (h : Sound 0 s) (hrun : s.running = true) :
    s.stack.countP (fun frame => decide (frame.attempt = some s.generation)) = 0 := by
  have hload := h.load hrun
  unfold State.load at hload
  omega

theorem suspend_attempt (h : Sound 0 s) (hrun : s.running = true) {origin : Option SocketId} {state : SocketState}
    {frame : Frame} (hframe : frame.attempt = some s.generation) : Sound 1 (s.suspend origin state frame) where
  sockets := h.sockets
  current := h.current
  timers := h.timers
  armed := h.armed
  frames := by
    intro f hf g hg
    rcases List.mem_cons.mp hf with rfl | hf
    · rw [hframe] at hg
      exact Nat.le_of_eq (Option.some.inj hg).symm
    · exact h.frames f hf g hg
  load _ := by
    have hws := h.ws_none hrun
    have htimer := h.timer_none hrun
    have hframes := h.frames_none hrun
    simp [State.load, State.suspend, hws, htimer, hframe, hframes]

theorem suspend_last (h : Sound n s) {origin : Option SocketId} {state : SocketState} {frame : Frame}
    (hframe : frame.attempt = none) : Sound n (s.suspend origin state frame) where
  sockets := h.sockets
  current := h.current
  timers := h.timers
  armed := h.armed
  frames := by
    intro f hf g hg
    rcases List.mem_cons.mp hf with rfl | hf
    · rw [hframe] at hg
      cases hg
    · exact h.frames f hf g hg
  load hrun := by
    have hcount : (frame :: s.stack).countP (fun f => decide (f.attempt = some s.generation)) =
        s.stack.countP fun f => decide (f.attempt = some s.generation) := List.countP_cons_of_neg (by simp [hframe])
    rw [← h.load hrun]
    unfold State.load
    rw [← hcount]
    rfl

theorem setTimeout (h : Sound 0 s) (hrun : s.running = true) {delay : Int} :
    Sound 1 (s.setTimeout s.generation delay) where
  sockets := h.sockets
  current := h.current
  timers := by
    intro t x hx hpending
    simp only [State.setTimeout] at hx ⊢
    rcases Nat.lt_trichotomy t s.timers.length with hlt | rfl | hgt
    · rw [List.getElem?_append_left hlt] at hx
      have htimer := h.timers t x hx hpending
      rw [h.timer_none hrun] at htimer
      cases htimer
    · rfl
    · rw [List.getElem?_eq_none (by simp; omega)] at hx
      cases hx
  armed := by
    rintro t ht
    simp only [State.setTimeout, Option.some.injEq] at ht
    subst ht
    exact ⟨hrun, _, List.getElem?_concat_length, rfl, rfl⟩
  frames := h.frames
  load _ := by
    have hws := h.ws_none hrun
    have hframes := h.frames_none hrun
    simp [State.load, State.setTimeout, hws, hframes]

theorem scheduleReconnect (h : Sound 0 s) (hrun : s.running = true) :
    Sound 1 (s.scheduleReconnect reconnectDelayMs s.generation) := by
  unfold State.scheduleReconnect
  rw [if_pos ⟨hrun, rfl, h.timer_none hrun⟩]
  have hcounted : Sound 0 { s with reconnectAttempts := s.reconnectAttempts + 1 } :=
    ⟨h.sockets, h.current, h.timers, h.armed, h.frames, h.load⟩
  dsimp only
  split
  · exact hcounted.setTimeout hrun
  · exact hcounted.suspend_attempt hrun rfl

theorem establish (h : Sound 0 s) (hrun : s.running = true) {ok : Bool} :
    Sound 1 (s.establish reconnectDelayMs ok s.generation) := by
  unfold State.establish
  split
  · refine ⟨?_, ?_, h.timers, h.armed, h.frames, fun _ => ?_⟩
    · intro w x hx hlive
      simp only at hx ⊢
      rcases Nat.lt_trichotomy w s.sockets.length with hlt | rfl | hgt
      · rw [List.getElem?_append_left hlt] at hx
        have hws := h.sockets w x hx hlive
        rw [h.ws_none hrun] at hws
        cases hws
      · rfl
      · rw [List.getElem?_eq_none (by simp; omega)] at hx
        cases hx
    · rintro w hw
      simp only [Option.some.injEq] at hw
      subst hw
      exact ⟨hrun, _, List.getElem?_concat_length, rfl⟩
    · have htimer := h.timer_none hrun
      have hframes := h.frames_none hrun
      simp [State.load, htimer, hframes]
  · exact h.scheduleReconnect hrun

theorem connect (h : Sound 0 s) (hrun : s.running = true) {ok : Bool} :
    Sound 1 (s.connect reconnectDelayMs ok s.generation) := by
  unfold State.connect
  rw [if_pos ⟨hrun, rfl⟩]
  split
  · exact h.establish hrun
  · exact h.suspend_attempt hrun rfl

theorem closeSocket (h : Sound n s) (w : SocketId) : Sound n (s.closeSocket w) where
  sockets := by
    intro v x hx hlive
    by_cases hv : w = v
    · subst hv
      rw [State.closeSocket, List.getElem?_modify_eq] at hx
      obtain ⟨y, _, rfl⟩ := Option.map_eq_some_iff.mp hx
      cases hlive
    · rw [State.closeSocket, List.getElem?_modify_ne _ _ hv] at hx
      exact h.sockets v x hx hlive
  current := by
    intro v hv
    obtain ⟨hrun, x, hx, hgeneration⟩ := h.current v hv
    refine ⟨hrun, ?_⟩
    by_cases hw : w = v
    · refine ⟨{ x with live := false }, ?_, hgeneration⟩
      rw [hw, State.closeSocket, List.getElem?_modify_eq, hx]
      rfl
    · refine ⟨x, ?_, hgeneration⟩
      rw [State.closeSocket, List.getElem?_modify_ne _ _ hw]
      exact hx
  timers := h.timers
  armed := h.armed
  frames := h.frames
  load := h.load

theorem drop_socket (h : Sound 1 s) {w : SocketId} (hw : s.ws = some w) : Sound 0 ({ s with ws := none }.closeSocket w) where
  sockets := by
    intro v x hx hlive
    by_cases hv : w = v
    · subst hv
      rw [State.closeSocket, List.getElem?_modify_eq] at hx
      obtain ⟨y, _, rfl⟩ := Option.map_eq_some_iff.mp hx
      cases hlive
    · rw [State.closeSocket, List.getElem?_modify_ne _ _ hv] at hx
      have hws := h.sockets v x hx hlive
      rw [hw] at hws
      exact absurd (Option.some.inj hws) hv
  current := by
    intro v hv
    cases hv
  timers := h.timers
  armed := h.armed
  frames := h.frames
  load hrun := by
    have hload := h.load hrun
    simp only [State.load, hw, Option.toList_some, List.length_singleton] at hload
    change 0 + s.reconnectTimer.toList.length +
      s.stack.countP (fun frame => decide (frame.attempt = some s.generation)) = 0
    omega

theorem drop_timer (h : Sound 1 s) {t : TimerId} (ht : s.reconnectTimer = some t) :
    Sound 0 { s with timers := s.timers.modify t fun x => { x with pending := false }, reconnectTimer := none } where
  sockets := h.sockets
  current := h.current
  timers := by
    intro u x hx hpending
    by_cases hu : t = u
    · subst hu
      rw [List.getElem?_modify_eq] at hx
      obtain ⟨y, _, rfl⟩ := Option.map_eq_some_iff.mp hx
      cases hpending
    · rw [List.getElem?_modify_ne _ _ hu] at hx
      have htimer := h.timers u x hx hpending
      rw [ht] at htimer
      exact absurd (Option.some.inj htimer) hu
  armed := by
    intro u hu
    cases hu
  frames := h.frames
  load hrun := by
    have hload := h.load hrun
    simp only [State.load, ht, Option.toList_some, List.length_singleton] at hload
    change s.ws.toList.length + 0 + s.stack.countP (fun frame => decide (frame.attempt = some s.generation)) = 0
    omega

theorem handleDisconnect (h : Sound 1 s) (w : SocketId) (g : Nat) :
    Sound 1 (s.handleDisconnect reconnectDelayMs w g) := by
  unfold State.handleDisconnect
  split
  · rename_i hcurrent
    simp only [isCurrent, Bool.and_eq_true, decide_eq_true_eq] at hcurrent
    obtain ⟨⟨hrun, rfl⟩, hw⟩ := hcurrent
    have hdropped := h.drop_socket hw
    dsimp only
    split
    · exact hdropped.scheduleReconnect hrun
    · exact hdropped.suspend_attempt hrun rfl
  · exact h

theorem fire (h : Sound 1 s) {t : TimerId} {x : Timer} (hx : s.timers[t]? = some x) (hpending : x.pending = true) {ok : Bool} :
    Sound 1 (s.fire reconnectDelayMs t ok x.generation) := by
  have ht := h.timers t x hx hpending
  obtain ⟨hrun, y, hy, -, hgeneration⟩ := h.armed t ht
  rw [hx] at hy
  cases hy
  rw [hgeneration]
  exact (h.drop_timer ht).connect hrun

theorem onOpen (h : Sound n s) {w : SocketId} {g : Nat} : Sound n (s.onOpen w g) := by
  unfold State.onOpen
  dsimp only
  split
  · have hreset : Sound n { s with reconnectAttempts := 0 } :=
      ⟨h.sockets, h.current, h.timers, h.armed, h.frames, h.load⟩
    split
    · exact hreset
    · exact hreset.suspend_last rfl
  · exact h

theorem onMessage (h : Sound n s) {w : SocketId} {g : Nat} {decoded : Option Msg} : Sound n (s.onMessage w g decoded) := by
  unfold State.onMessage
  split
  · exact h
  · split
    · rename_i msg _
      have hcalled : Sound n (s.suspend none s.state .message) := h.suspend_last rfl
      exact ⟨hcalled.sockets, hcalled.current, hcalled.timers, hcalled.armed, hcalled.frames, hcalled.load⟩
    · exact h

theorem openCall (h : Sound 1 s) {ok : Bool} : Sound 1 (s.openCall reconnectDelayMs ok) := by
  unfold State.openCall
  split
  · exact h
  · rename_i hstopped
    have hws : s.ws = none := Option.eq_none_iff_forall_not_mem.mpr fun w hw => hstopped (h.current w hw).1
    have htimer : s.reconnectTimer = none :=
      Option.eq_none_iff_forall_not_mem.mpr fun t ht => hstopped (h.armed t ht).1
    -- the calls still in progress belong to earlier generations
    have hframes : s.stack.countP (fun frame => decide (frame.attempt = some (s.generation + 1))) = 0 := by
      refine List.countP_eq_zero.mpr fun frame hframe hattempt => ?_
      have hle := h.frames frame hframe _ (of_decide_eq_true hattempt)
      omega
    have hfresh : Sound 0 { s with running := true, reconnectAttempts := 0, generation := s.generation + 1 } :=
      { sockets := h.sockets
        current := by
          intro w hw
          rw [hws] at hw
          cases hw
        timers := h.timers
        armed := by
          intro t ht
          rw [htimer] at ht
          cases ht
        frames := fun frame hframe g hg => Nat.le_succ_of_le (h.frames frame hframe g hg)
        load := fun _ => by simp [State.load, hws, htimer, hframes] }
    exact hfresh.connect rfl

theorem sockets_dead (h : Sound n s) {v : SocketId} {x : Socket} (hx : s.sockets[v]? = some x) (hv : s.ws ≠ some v) :
    x.live = false := by
  cases hlive : x.live with
  | false => rfl
  | true => exact absurd (h.sockets v x hx hlive) hv

theorem timers_idle (h : Sound n s) {u : TimerId} {x : Timer} (hx : s.timers[u]? = some x) (hu : s.reconnectTimer ≠ some u) :
    x.pending = false := by
  cases hpending : x.pending with
  | false => rfl
  | true => exact absurd (h.timers u x hx hpending) hu

theorem stopped (h : Sound n s) {t : State Msg} (hrun : t.running = false) (hws : t.ws = none)
    (htimer : t.reconnectTimer = none)
    (hsockets : t.sockets = s.ws.elim s.sockets fun w => s.sockets.modify w fun x => { x with live := false })
    (htimers : t.timers = s.reconnectTimer.elim s.timers fun u => s.timers.modify u fun x => { x with pending := false })
    (hgeneration : t.generation = s.generation + 1) (hstack : t.stack = s.stack) : Sound n t where
  sockets := by
    intro v x hx hlive
    rw [hsockets] at hx
    cases hw : s.ws with
    | none =>
        rw [hw] at hx
        rw [h.sockets_dead hx (by simp [hw])] at hlive
        cases hlive
    | some w =>
        rw [hw] at hx
        by_cases hv : w = v
        · subst hv
          rw [Option.elim_some, List.getElem?_modify_eq] at hx
          obtain ⟨y, _, rfl⟩ := Option.map_eq_some_iff.mp hx
          cases hlive
        · rw [Option.elim_some, List.getElem?_modify_ne _ _ hv] at hx
          rw [h.sockets_dead hx (by simpa [hw] using hv)] at hlive
          cases hlive
  current := by
    intro v hv
    rw [hws] at hv
    cases hv
  timers := by
    intro v x hx hpending
    rw [htimers] at hx
    cases hu : s.reconnectTimer with
    | none =>
        rw [hu] at hx
        rw [h.timers_idle hx (by simp [hu])] at hpending
        cases hpending
    | some u =>
        rw [hu] at hx
        by_cases hv : u = v
        · subst hv
          rw [Option.elim_some, List.getElem?_modify_eq] at hx
          obtain ⟨y, _, rfl⟩ := Option.map_eq_some_iff.mp hx
          cases hpending
        · rw [Option.elim_some, List.getElem?_modify_ne _ _ hv] at hx
          rw [h.timers_idle hx (by simpa [hu] using hv)] at hpending
          cases hpending
  armed := by
    intro u hu
    rw [htimer] at hu
    cases hu
  frames := by
    rw [hstack, hgeneration]
    exact fun frame hframe g hg => Nat.le_succ_of_le (h.frames frame hframe g hg)
  load := by
    intro hrunning
    rw [hrun] at hrunning
    cases hrunning

theorem closeCall (h : Sound 1 s) : Sound 1 s.closeCall := by
  unfold State.closeCall
  split
  · exact h
  · have htold : ∀ t : State Msg, Sound 1 t → Sound 1 (if t.state = .closed then t else t.suspend none .closed .closing) := by
      intro t ht
      split
      · exact ht
      · exact ht.suspend_last rfl
    refine htold _ ?_
    cases hws : s.ws <;> cases htimer : s.reconnectTimer <;>
      refine h.stopped ?_ ?_ ?_ ?_ ?_ ?_ ?_ <;> simp [clearTimeout, State.closeSocket, hws, htimer]

theorem resume (h : Sound 1 s) {ok : Bool} {frame : Frame} {rest : List Frame} (hstack : s.stack = frame :: rest)
    (hsteady : ∀ g, frame = .connecting g → ok = true → s.running = true ∧ g = s.generation)
    (hsteady' : ∀ g delay, frame = .scheduling g delay → s.running = true ∧ g = s.generation) :
    Sound 1 ({ s with stack := rest }.resume reconnectDelayMs ok frame) := by
  have hframes : ∀ f ∈ rest, ∀ g, f.attempt = some g → g ≤ s.generation := fun f hf =>
    h.frames f (hstack ▸ List.mem_cons_of_mem frame hf)
  -- the frame was what kept the object going
  have hcurrent : s.running = true → frame.attempt = some s.generation → Sound 0 { s with stack := rest } := by
    intro hrun hframe
    refine ⟨h.sockets, h.current, h.timers, h.armed, hframes, fun _ => ?_⟩
    have hload := h.load hrun
    have hcount : (frame :: rest).countP (fun f => decide (f.attempt = some s.generation)) =
        rest.countP (fun f => decide (f.attempt = some s.generation)) + 1 := List.countP_cons_of_pos (by simp [hframe])
    rw [State.load, hstack, hcount] at hload
    change s.ws.toList.length + s.reconnectTimer.toList.length +
      rest.countP (fun f => decide (f.attempt = some s.generation)) = 0
    omega
  -- it was not
  have hstale : ¬ (s.running = true ∧ frame.attempt = some s.generation) → Sound 1 { s with stack := rest } := by
    intro hframe
    refine ⟨h.sockets, h.current, h.timers, h.armed, hframes, fun hrun => ?_⟩
    have hcount : (frame :: rest).countP (fun f => decide (f.attempt = some s.generation)) =
        rest.countP fun f => decide (f.attempt = some s.generation) :=
      List.countP_cons_of_neg fun hattempt => hframe ⟨hrun, of_decide_eq_true hattempt⟩
    rw [← h.load hrun, State.load, State.load, hstack, hcount]
  cases frame with
  | connecting g =>
      by_cases hg : s.running = true ∧ g = s.generation
      · obtain ⟨hrun, rfl⟩ := hg
        exact (hcurrent hrun rfl).establish hrun
      · cases ok with
        | true => exact absurd (hsteady g rfl rfl) hg
        | false =>
            simp only [State.resume, State.establish, Bool.false_eq_true, if_false, State.scheduleReconnect]
            rw [if_neg fun hguard => hg ⟨hguard.1, hguard.2.1⟩]
            exact hstale fun hframe => hg ⟨hframe.1, Option.some.inj hframe.2⟩
  | scheduling g delay =>
      obtain ⟨hrun, rfl⟩ := hsteady' g delay rfl
      exact (hcurrent hrun rfl).setTimeout hrun
  | disconnecting g =>
      by_cases hg : s.running = true ∧ g = s.generation
      · obtain ⟨hrun, rfl⟩ := hg
        exact (hcurrent hrun rfl).scheduleReconnect hrun
      · simp only [State.resume, State.scheduleReconnect]
        rw [if_neg fun hguard => hg ⟨hguard.1, hguard.2.1⟩]
        exact hstale fun hframe => hg ⟨hframe.1, Option.some.inj hframe.2⟩
  | opened => exact hstale fun hframe => by cases hframe.2
  | closing => exact hstale fun hframe => by cases hframe.2
  | message => exact hstale fun hframe => by cases hframe.2

end Sound

def Retired (s : State Msg) (w : SocketId) : Prop := w < s.sockets.length ∧ s.ws ≠ some w

def deliveries (s : State Msg) (w : SocketId) : List (Delivery Msg) :=
  s.log.filter fun d => decide (d.origin = some w)

-- From one state to the other, a retired socket stays retired and tells nothing.
def Silent (w : SocketId) (s t : State Msg) : Prop := s.Retired w → t.Retired w ∧ t.deliveries w = s.deliveries w

namespace Silent

variable {t : State Msg} {w v : SocketId} {g : Nat} {ok : Bool}

theorem same (hws : t.ws = s.ws) (hsockets : t.sockets.length = s.sockets.length) (hlog : t.log = s.log) : Silent w s t := by
  intro h
  refine ⟨⟨hsockets ▸ h.1, hws ▸ h.2⟩, ?_⟩
  unfold deliveries
  rw [hlog]

theorem trans {u : State Msg} (h : Silent w s t) (h' : Silent w t u) : Silent w s u := by
  intro hs
  have ht := h hs
  have hu := h' ht.1
  exact ⟨hu.1, hu.2.trans ht.2⟩

theorem suspend {origin : Option SocketId} {state : SocketState} {frame : Frame} (h : s.Retired w → origin ≠ some w) :
    Silent w s (s.suspend origin state frame) := by
  intro hs
  refine ⟨hs, ?_⟩
  simp [deliveries, State.suspend, Delivery.origin, h hs]

theorem scheduleReconnect : Silent w s (s.scheduleReconnect reconnectDelayMs g) := by
  unfold State.scheduleReconnect
  dsimp only
  split
  · split
    · exact same rfl rfl rfl
    · exact trans (t := { s with reconnectAttempts := s.reconnectAttempts + 1 }) (same rfl rfl rfl)
        (suspend fun _ => by simp)
  · exact same rfl rfl rfl

theorem establish : Silent w s (s.establish reconnectDelayMs ok g) := by
  unfold State.establish
  split
  · -- the new socket is none of those there were
    intro hs
    refine ⟨⟨?_, ?_⟩, rfl⟩
    · rw [List.length_append]
      exact Nat.lt_add_right 1 hs.1
    · intro heq
      have hlt := hs.1
      rw [← Option.some.inj heq] at hlt
      exact Nat.lt_irrefl _ hlt
  · exact scheduleReconnect

theorem connect : Silent w s (s.connect reconnectDelayMs ok g) := by
  unfold State.connect
  split
  · split
    · exact establish
    · exact suspend fun _ => by simp
  · exact same rfl rfl rfl

theorem closeSocket : Silent w s (s.closeSocket v) := same rfl (by simp [State.closeSocket]) rfl

theorem drop {k : Nat} : Silent w s { s with ws := none, reconnectAttempts := k } := fun hs => ⟨⟨hs.1, by simp⟩, rfl⟩

theorem handleDisconnect : Silent w s (s.handleDisconnect reconnectDelayMs v g) := by
  unfold State.handleDisconnect
  split
  · rename_i hcurrent
    simp only [isCurrent, Bool.and_eq_true, decide_eq_true_eq] at hcurrent
    have hdropped : Silent w s ({ s with ws := none }.closeSocket v) := drop.trans closeSocket
    dsimp only
    split
    · exact hdropped.trans scheduleReconnect
    · intro hs
      have hother : some v ≠ some w := fun heq => hs.2 (hcurrent.2.trans heq)
      exact hdropped.trans (suspend fun _ => hother) hs
  · exact same rfl rfl rfl

theorem onOpen : Silent w s (s.onOpen v g) := by
  unfold State.onOpen
  dsimp only
  split
  · rename_i hcurrent
    simp only [isCurrent, Bool.and_eq_true, decide_eq_true_eq] at hcurrent
    split
    · exact same rfl rfl rfl
    · exact trans (t := { s with reconnectAttempts := 0 }) (same rfl rfl rfl)
        (suspend fun hs heq => hs.2 (hcurrent.2.trans heq))
  · exact same rfl rfl rfl

theorem onMessage {decoded : Option Msg} : Silent w s (s.onMessage v g decoded) := by
  unfold State.onMessage
  split
  · exact same rfl rfl rfl
  · split
    · rename_i hcurrent
      simp only [isCurrent, Bool.and_eq_true, decide_eq_true_eq] at hcurrent
      intro hs
      have hother : v ≠ w := fun heq => hs.2 (heq ▸ hcurrent.2)
      refine ⟨hs, ?_⟩
      simp [deliveries, Delivery.origin, hother]
    · exact same rfl rfl rfl

theorem clearTimeout : Silent w s s.clearTimeout := by
  unfold State.clearTimeout
  split <;> exact same rfl rfl rfl

theorem closeCall : Silent w s s.closeCall := by
  unfold State.closeCall
  split
  · exact same rfl rfl rfl
  · have htold : ∀ t : State Msg, Silent w s t → Silent w s (if t.state = .closed then t else t.suspend none .closed .closing) := by
      intro t ht
      split
      · exact ht
      · exact ht.trans (suspend fun _ => by simp)
    refine htold _ ?_
    have hcleared : Silent w s ({ s with running := false, generation := s.generation + 1 } : State Msg).clearTimeout :=
      trans (t := { s with running := false, generation := s.generation + 1 }) (same rfl rfl rfl) clearTimeout
    split
    · exact hcleared.trans (same rfl rfl rfl)
    · exact (hcleared.trans drop).trans closeSocket

theorem openCall : Silent w s (s.openCall reconnectDelayMs ok) := by
  unfold State.openCall
  split
  · exact same rfl rfl rfl
  · exact trans (t := { s with running := true, reconnectAttempts := 0, generation := s.generation + 1 })
      (same rfl rfl rfl) connect

theorem resume {frame : Frame} : Silent w s (s.resume reconnectDelayMs ok frame) := by
  cases frame with
  | connecting g => exact establish
  | scheduling g delay => exact same rfl rfl rfl
  | disconnecting g => exact scheduleReconnect
  | opened => exact same rfl rfl rfl
  | closing => exact same rfl rfl rfl
  | message => exact same rfl rfl rfl

theorem fire {u : TimerId} : Silent w s (s.fire reconnectDelayMs u ok g) :=
  trans (t := { s with timers := s.timers.modify u fun x => { x with pending := false }, reconnectTimer := none })
    (same rfl rfl rfl) connect

end Silent

end State

open State

theorem next_silent {s t : State Msg} {a : Action Msg} (h : next reconnectDelayMs s a = some t) (w : SocketId) :
    Silent w s t := by
  cases a with
  | «open» ok =>
      cases h
      exact Silent.openCall
  | close =>
      cases h
      exact Silent.closeCall
  | ret ok =>
      simp only [next] at h
      split at h
      · cases h
      · rename_i frame rest _
        cases h
        exact Silent.trans (t := { s with stack := rest }) (Silent.same rfl rfl rfl) Silent.resume
  | socketOpen v =>
      simp only [next] at h
      split at h
      · obtain ⟨x, _, rfl⟩ := Option.map_eq_some_iff.mp h
        exact Silent.onOpen
      · cases h
  | socketMessage v decoded =>
      simp only [next] at h
      split at h
      · obtain ⟨x, _, rfl⟩ := Option.map_eq_some_iff.mp h
        exact Silent.onMessage
      · cases h
  | socketError v =>
      simp only [next] at h
      split at h
      · obtain ⟨x, _, rfl⟩ := Option.map_eq_some_iff.mp h
        exact Silent.handleDisconnect
      · cases h
  | socketClose v =>
      simp only [next] at h
      split at h
      · obtain ⟨x, _, rfl⟩ := Option.map_eq_some_iff.mp h
        exact Silent.closeSocket.trans Silent.handleDisconnect
      · cases h
  | timer u ok =>
      simp only [next] at h
      split at h
      · obtain ⟨x, _, rfl⟩ := Option.map_eq_some_iff.mp h
        exact Silent.fire
      · cases h

-- A callback has not stopped the call that waits for it: what the call stores belongs to the object.
def Steady (s : State Msg) : Action Msg → Prop
  | .ret ok =>
      match s.stack with
      | .connecting g :: _ => ok = true → s.running = true ∧ g = s.generation
      | .scheduling g _ :: _ => s.running = true ∧ g = s.generation
      | _ => True
  | _ => True

instance (s : State Msg) (a : Action Msg) : Decidable (Steady s a) := by
  unfold Steady
  split
  · split <;> infer_instance
  · infer_instance

theorem next_sound {s t : State Msg} {a : Action Msg} (hs : Sound 1 s) (hsteady : Steady s a)
    (h : next reconnectDelayMs s a = some t) : Sound 1 t := by
  cases a with
  | «open» ok =>
      cases h
      exact hs.openCall
  | close =>
      cases h
      exact hs.closeCall
  | ret ok =>
      simp only [next] at h
      cases hstack : s.stack with
      | nil =>
          rw [hstack] at h
          cases h
      | cons frame rest =>
          rw [hstack] at h
          cases h
          simp only [Steady, hstack] at hsteady
          refine hs.resume hstack ?_ ?_
          · rintro g rfl hok
            exact hsteady hok
          · rintro g delay rfl
            exact hsteady
  | socketOpen v =>
      simp only [next] at h
      split at h
      · obtain ⟨x, _, rfl⟩ := Option.map_eq_some_iff.mp h
        exact hs.onOpen
      · cases h
  | socketMessage v decoded =>
      simp only [next] at h
      split at h
      · obtain ⟨x, _, rfl⟩ := Option.map_eq_some_iff.mp h
        exact hs.onMessage
      · cases h
  | socketError v =>
      simp only [next] at h
      split at h
      · obtain ⟨x, _, rfl⟩ := Option.map_eq_some_iff.mp h
        exact hs.handleDisconnect v x.generation
      · cases h
  | socketClose v =>
      simp only [next] at h
      split at h
      · obtain ⟨x, _, rfl⟩ := Option.map_eq_some_iff.mp h
        exact (hs.closeSocket v).handleDisconnect v x.generation
      · cases h
  | timer u ok =>
      simp only [next] at h
      split at h
      · obtain ⟨x, hx, rfl⟩ := Option.map_eq_some_iff.mp h
        obtain ⟨hx, hpending⟩ := Option.filter_eq_some_iff.mp hx
        exact hs.fire hx hpending
      · cases h

structure Safe (reconnectDelayMs : Nat → Option Int) (s : State Msg) : Prop where
  -- a socket that was replaced or closed is never heard of again
  silent : ∀ w, s.Retired w → ∀ as t, (machine reconnectDelayMs).run s as = some t → t.deliveries w = s.deliveries w
  -- an open socket is the socket of the running object, and a pending timer its timer
  socket : ∀ w x, s.sockets[w]? = some x → x.live = true →
    s.running = true ∧ s.ws = some w ∧ x.generation = s.generation
  timer : ∀ t x, s.timers[t]? = some x → x.pending = true →
    s.running = true ∧ s.reconnectTimer = some t ∧ x.generation = s.generation
  -- between calls, a running object has a socket or waits for its timer, and not both
  exactlyOne : s.running = true → s.stack = [] → Xor
    (∃ w x, s.ws = some w ∧ s.sockets[w]? = some x ∧ x.generation = s.generation)
    (∃ t x, s.reconnectTimer = some t ∧ s.timers[t]? = some x ∧ x.pending = true ∧ x.generation = s.generation)

theorem run_silent {s t : State Msg} {w : SocketId} (hw : s.Retired w) {as : List (Action Msg)}
    (h : (machine reconnectDelayMs).run s as = some t) : t.deliveries w = s.deliveries w := by
  have hkept := Lib.Machine.run_invariant (P := fun t : State Msg => t.Retired w ∧ t.deliveries w = s.deliveries w)
    (fun u a v hu hstep => by
      have hsilent := next_silent hstep w hu.1
      exact ⟨hsilent.1, hsilent.2.trans hu.2⟩) as ⟨hw, rfl⟩ h
  exact hkept.2

theorem State.Sound.exactlyOne {s : State Msg} (h : Sound 1 s) (hrun : s.running = true) (hstack : s.stack = []) : Xor
    (∃ w x, s.ws = some w ∧ s.sockets[w]? = some x ∧ x.generation = s.generation)
    (∃ t x, s.reconnectTimer = some t ∧ s.timers[t]? = some x ∧ x.pending = true ∧ x.generation = s.generation) := by
  have hload := h.load hrun
  simp only [State.load, hstack, List.countP_nil] at hload
  cases hws : s.ws with
  | some w =>
      obtain ⟨-, x, hx, hgeneration⟩ := h.current w hws
      refine .inl ⟨⟨w, x, rfl, hx, hgeneration⟩, ?_⟩
      rintro ⟨t, y, ht, -⟩
      simp [hws, ht] at hload
  | none =>
      cases htimer : s.reconnectTimer with
      | none => simp [hws, htimer] at hload
      | some t =>
          obtain ⟨-, x, hx, hpending, hgeneration⟩ := h.armed t htimer
          refine .inr ⟨⟨t, x, rfl, hx, hpending, hgeneration⟩, ?_⟩
          rintro ⟨w, y, hw, -⟩
          cases hw

-- The transport is safe in every run in which no call goes on after a callback has stopped it.
theorem transport_safe {s : State Msg} (h : ((machine reconnectDelayMs).restrict Steady).Reachable s) :
    Safe reconnectDelayMs s := by
  have hsound : Sound 1 s := h.invariant sound_start fun s a t hs ha =>
    next_sound hs (Lib.Machine.restrict_next ha).1 (Lib.Machine.restrict_next ha).2
  refine ⟨fun w hw as t hrun => run_silent hw hrun, ?_, ?_, hsound.exactlyOne⟩
  · intro w x hx hlive
    have hws := hsound.sockets w x hx hlive
    obtain ⟨hrun, y, hy, hgeneration⟩ := hsound.current w hws
    rw [hx] at hy
    cases hy
    exact ⟨hrun, hws, hgeneration⟩
  · intro t x hx hpending
    have htimer := hsound.timers t x hx hpending
    obtain ⟨hrun, y, hy, -, hgeneration⟩ := hsound.armed t htimer
    rw [hx] at hy
    cases hy
    exact ⟨hrun, htimer, hgeneration⟩

-- A callback that closes the object and opens it again, once the socket is there.
def reopened : List (Action Unit) :=
  [.open true, .ret true, .socketOpen 0, .close, .ret true, .open true, .ret true, .ret true, .socketMessage 0 (some ()),
    .socketOpen 1, .ret true, .socketMessage 1 (some ()), .ret true]

theorem transport_safe_reopened : ∃ s : State Unit,
    ((machine fun _ => none).restrict Steady).run {} reopened = some s ∧ s.running = true ∧ Safe (fun _ => none) s :=
  ⟨_, rfl, rfl, transport_safe ⟨reopened, rfl⟩⟩

-- The callback of `connecting` closes the object: the socket is created all the same, and nobody has it.
def closedWhileConnecting : List (Action Unit) := [.open true, .close, .ret true, .ret true]

theorem socket_leaked :
    ¬ ∀ (reconnectDelayMs : Nat → Option Int) (s : State Unit), (machine reconnectDelayMs).Reachable s →
      Safe reconnectDelayMs s := by
  intro h
  have hrun : (machine fun _ => none).run ({} : State Unit) closedWhileConnecting =
      some { generation := 2, ws := some 0, sockets := [{ generation := 1, live := true }]
             log := [.state none .connecting, .state none .closed] } := rfl
  have hsafe := h (fun _ => none) _ ⟨closedWhileConnecting, hrun⟩
  have hrunning := (hsafe.socket 0 _ rfl rfl).1
  cases hrunning

end GaHub.Transport
