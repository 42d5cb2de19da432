import SynologyFilestation.Openvpn.Wakeup

/-!
How far the timers of a session reach (`openvpn/src/reliable.rs`, `openvpn/src/session.rs`).

A timeout doubles whenever its message is sent. A message that is sent because its time has come
had a timeout that has passed, so that it is no longer than the clock. One that later
acknowledgements bring forward may double again before it has passed, but only so often: each time
takes three messages that were sent behind it, and the window has no room for many.
-/

namespace SynologyFilestation.Openvpn

open Core Library

/-- An `Instant` holds a signed 64-bit number of seconds. -/
def instantEnd : ℕ := fromSecs (2 ^ 63)

/-- A `Duration` holds an unsigned 64-bit number of seconds. -/
def durationEnd : ℕ := fromSecs (2 ^ 64)

/-- The clock of a run stays below this. -/
def horizon : ℕ := fromSecs (2 ^ 40)

namespace SendWindow

variable {w : SendWindow} {now timeout : ℕ} {id i : UInt32} {entry : InFlight} {opcode : Opcode}
  {payload : Bytes} {ids : List UInt32}

/-- The sums of `next_due`. -/
def DueFits (w : SendWindow) (now : ℕ) : Prop :=
  ∀ id entry, w.inFlight.entries.find? (fun e => e.2.isDue now fastRetransmitAfter) =
    some (id, entry) → now + entry.timeout < instantEnd ∧ entry.timeout * 2 < durationEnd

/-- How many messages may still be acknowledged before one of this id: those in flight that
count as later, and those that the window has room for as long as this one waits. -/
def ahead (w : SendWindow) (id : UInt32) : ℕ :=
  w.inFlight.entries.countP (fun e => id < e.1) +
    if id.toNat < w.nextId.toNat then id.toNat + capacity - w.nextId.toNat else 0

/-- What a timeout is within when its time has come, or it was never reckoned with. -/
def longest (timeout : ℕ) : ℕ := max (4 * horizon) (2 * timeout)

/-- A message that waits. How often it was brought forward is bounded by the acknowledgements that
may have done so: there are three for each time, those since the last one, and those to come. -/
structure Paced (w : SendWindow) (timeout : ℕ) (id : UInt32) (entry : InFlight) : Prop where
  unsent : entry.nextTry = none → entry.timeout = timeout
  sent : ∀ next, entry.nextTry = some next → entry.timeout ≤ 2 * next
  hurried : ∃ times, entry.timeout ≤ longest timeout * 2 ^ times ∧
    3 * times + entry.laterAcks.toNat + w.ahead id ≤ 10

/-- Every message that waits is paced. -/
structure Steady (timeout : ℕ) (w : SendWindow) : Prop where
  initial : w.initialTimeout = timeout
  room : w.inFlight.entries.length ≤ capacity
  paced : ∀ id entry, (id, entry) ∈ w.inFlight.entries → w.Paced timeout id entry

theorem Steady.new (timeout : ℕ) : (new timeout).Steady timeout :=
  ⟨rfl, Nat.zero_le _, fun _ _ hmem => absurd hmem OrderedMap.mem_empty⟩

theorem Paced.of_ahead {w' : SendWindow} (h : w.Paced timeout id entry)
    (hahead : w'.ahead id ≤ w.ahead id) : w'.Paced timeout id entry := by
  obtain ⟨times, hle, hcount⟩ := h.hurried
  exact ⟨h.unsent, h.sent, times, hle, by omega⟩

theorem length_of_not_isFull (hroom : w.isFull = false) :
    w.inFlight.entries.length < capacity := by
  unfold isFull at hroom
  split at hroom
  case isTrue => cases hroom
  case isFalse hlt => exact Nat.lt_of_not_le hlt

/-- The oldest message is no later than any, and the next id of a window with room is close to
it. -/
theorem nextId_of_not_isFull (hroom : w.isFull = false) (hmem : (id, entry) ∈ w.inFlight.entries)
    (hlt : id.toNat < w.nextId.toNat) : w.nextId.toNat < id.toNat + capacity := by
  have hlength := length_of_not_isFull hroom
  unfold isFull at hroom
  rw [if_neg (Nat.not_le.mpr hlength)] at hroom
  split at hroom
  case h_1 oldest entry' hhead =>
    have hle : oldest ≤ id := OrderedMap.head_le hhead hmem
    rw [UInt32.le_iff_toNat_le] at hle
    have hnear := Nat.lt_of_not_le (of_decide_eq_false hroom)
    rw [UInt32.toNat_sub_of_le _ _ (UInt32.le_iff_toNat_le.mpr (by omega))] at hnear
    omega
  case h_2 hhead =>
    rw [List.head?_eq_none_iff.mp hhead] at hmem
    cases hmem

/-- A full window takes nothing; another takes a message that comes before none but those that
it has room for. -/
theorem Steady.queue (h : w.Steady timeout) (opcode : Opcode) (payload : Bytes) :
    (w.queue opcode payload).2.Steady timeout := by
  unfold SendWindow.queue
  split
  case isTrue => exact h
  case isFalse hfull =>
    have hroom := Bool.eq_false_iff.mpr hfull
    have hlength := length_of_not_isFull hroom
    have hnext : (w.nextId + 1).toNat = (w.nextId.toNat + 1) % 2 ^ 32 := UInt32.toNat_add ..
    have hbound := w.nextId.toNat_lt
    refine ⟨h.initial, ?_, fun id entry hmem => ?_⟩
    · have hcount := OrderedMap.countP_insert (m := w.inFlight) (k := w.nextId)
        (b := ⟨opcode, payload, none, w.initialTimeout, 0⟩) (q := fun _ => true)
      have herase := OrderedMap.countP_erase_le (m := w.inFlight) (k := w.nextId)
        (q := fun _ => true)
      simp only [List.countP_true, if_true] at hcount herase
      dsimp only
      omega
    · have hcount := OrderedMap.countP_insert (m := w.inFlight) (k := w.nextId)
        (b := ⟨opcode, payload, none, w.initialTimeout, 0⟩) (q := fun e => id < e.1)
      have herase := OrderedMap.countP_erase_le (m := w.inFlight) (k := w.nextId)
        (q := fun e => id < e.1)
      rcases OrderedMap.mem_insert.mp hmem with hnew | ⟨hne, hold⟩
      · obtain ⟨rfl, rfl⟩ := Prod.mk.inj hnew
        refine ⟨fun _ => h.initial, nofun, 0, ?_, ?_⟩
        · rw [longest, Nat.pow_zero, Nat.mul_one]
          refine le_max_of_le_right ?_
          rw [← h.initial]
          exact Nat.le_mul_of_pos_left _ (by decide)
        · have hle := List.countP_le_length (p := fun e => decide (w.nextId < e.1))
            (l := w.inFlight.entries)
          rw [if_neg (by simp), Nat.add_zero] at hcount
          have hnone : (0 : UInt8).toNat = 0 := rfl
          rw [ahead, hcount, hnone]
          dsimp only
          rw [hnext]
          unfold capacity at hlength ⊢
          split <;> omega
      · refine (h.paced id entry hold).of_ahead ?_
        have hoff : id.toNat ≠ w.nextId.toNat := fun heq => hne (UInt32.toNat_inj.mp heq)
        -- What this one gains in the window it loses of the room behind it.
        have hclose := nextId_of_not_isFull hroom hold
        rw [ahead, ahead, hcount]
        dsimp only
        rw [hnext]
        simp only [decide_eq_true_eq, UInt32.lt_iff_toNat_lt] at herase ⊢
        split_ifs <;> omega

theorem toNat_overtaken_le (entry : InFlight) :
    entry.overtaken.laterAcks.toNat ≤ entry.laterAcks.toNat + 1 := by
  rw [InFlight.overtaken]
  dsimp only
  split
  case isTrue heq =>
    rw [heq]
    exact Nat.le_succ _
  case isFalse =>
    rw [UInt8.toNat_add]
    exact Nat.mod_le _ _

/-- An acknowledgement is one less to come, and brings forward at most by one. -/
theorem Steady.acknowledgeOne (h : w.Steady timeout) (id : UInt32) :
    (w.acknowledgeOne id).Steady timeout := by
  unfold SendWindow.acknowledgeOne
  split
  case h_1 => exact h
  case h_2 b hget =>
    have hin := OrderedMap.get?_eq_some.mp hget
    refine ⟨h.initial, ?_, fun i entry hmem => ?_⟩
    · have herase := OrderedMap.countP_erase_le (m := w.inFlight) (k := id) (q := fun _ => true)
      simp only [List.countP_true] at herase
      dsimp only [OrderedMap.mapValues]
      rw [List.length_map]
      exact herase.trans h.room
    · obtain ⟨c, hc, heq⟩ := OrderedMap.mem_mapValues.mp hmem
      obtain ⟨hne, hold⟩ := OrderedMap.mem_erase.mp hc
      obtain ⟨hunsent, hsent, times, hle, hcount⟩ := h.paced i c hold
      have hless := OrderedMap.countP_erase_of_mem (q := fun e => decide (i < e.1)) hin
      have hahead : SendWindow.ahead { w with
          inFlight := (w.inFlight.erase id).mapValues fun waiting entry =>
            if waiting < id then entry.overtaken else entry } i + (if i < id then 1 else 0) ≤
          w.ahead i := by
        rw [SendWindow.ahead, SendWindow.ahead, OrderedMap.countP_mapValues (q := fun k => i < k)]
        simp only [decide_eq_true_eq] at hless
        dsimp only
        omega
      dsimp only at heq
      split at heq
      case isTrue hbefore =>
        rw [if_pos hbefore] at hahead
        have hone := toNat_overtaken_le c
        rw [← heq]
        exact ⟨hunsent, hsent, times, hle, by omega⟩
      case isFalse hbefore =>
        rw [if_neg hbefore] at hahead
        rw [← heq]
        exact ⟨hunsent, hsent, times, hle, by omega⟩

theorem Steady.acknowledge (h : w.Steady timeout) (ids : List UInt32) :
    (w.acknowledge ids).Steady timeout := by
  induction ids generalizing w with
  | nil => exact h
  | cons id ids ih => exact ih (h.acknowledgeOne id)

/-- Why a message is due. -/
theorem due_cases (hdue : entry.isDue now fastRetransmitAfter = true) :
    entry.nextTry = none ∨ (∃ next, entry.nextTry = some next ∧ next ≤ now) ∨
      3 ≤ entry.laterAcks.toNat := by
  unfold InFlight.isDue at hdue
  cases hnext : entry.nextTry with
  | none => exact .inl rfl
  | some next =>
      rw [hnext] at hdue
      simp only [Bool.or_eq_true, decide_eq_true_eq] at hdue
      rcases hdue with hpassed | hhurried
      · exact .inr (.inl ⟨next, rfl, hpassed⟩)
      · exact .inr (.inr (UInt8.le_iff_toNat_le.mp hhurried))

/-- **The timeout of a message that is due.** -/
theorem Paced.timeout_le (h : w.Paced timeout id entry)
    (hdue : entry.isDue now fastRetransmitAfter = true) (hnow : now < horizon) :
    entry.timeout ≤ longest timeout * 4 := by
  rcases due_cases hdue with hnone | ⟨next, hnext, hpassed⟩ | hhurried
  · have hfirst := h.unsent hnone
    rw [longest]
    omega
  · have hreckoned := h.sent next hnext
    rw [longest]
    omega
  · obtain ⟨times, hle, hcount⟩ := h.hurried
    have hfew : 2 ^ times ≤ 2 ^ 2 := Nat.pow_le_pow_right (by decide) (by omega)
    exact hle.trans (Nat.mul_le_mul_left _ hfew)

/-- A message that is sent stays paced. -/
theorem Paced.sentAt (h : w.Paced timeout id entry)
    (hdue : entry.isDue now fastRetransmitAfter = true) (hnow : now < horizon) :
    w.Paced timeout id (entry.sentAt now) := by
  refine ⟨nofun, ?_, ?_⟩
  · rintro next ⟨⟩
    change entry.timeout * 2 ≤ 2 * (now + entry.timeout)
    omega
  · obtain ⟨times, hle, hcount⟩ := h.hurried
    change ∃ times, entry.timeout * 2 ≤ longest timeout * 2 ^ times ∧
      3 * times + (0 : UInt8).toNat + w.ahead id ≤ 10
    have hnone : (0 : UInt8).toNat = 0 := rfl
    rw [hnone]
    rcases due_cases hdue with hfirst | ⟨next, hnext, hpassed⟩ | hhurried
    · have hfirst := h.unsent hfirst
      refine ⟨0, ?_, by omega⟩
      rw [longest]
      omega
    · have hreckoned := h.sent next hnext
      refine ⟨0, ?_, by omega⟩
      rw [longest]
      omega
    · refine ⟨times + 1, ?_, by omega⟩
      rw [Nat.pow_succ, ← Nat.mul_assoc]
      exact Nat.mul_le_mul_right _ hle

theorem Steady.nextDue (h : w.Steady timeout) (hnow : now < horizon) :
    (w.nextDue now).2.Steady timeout := by
  unfold SendWindow.nextDue
  split
  case h_2 => exact h
  case h_1 id entry hfind =>
    have hin := List.mem_of_find?_eq_some hfind
    have hdue := List.find?_some hfind
    have hcount : ∀ q : UInt32 → Bool,
        (w.inFlight.insert id (entry.sentAt now)).entries.countP (fun e => q e.1) ≤
          w.inFlight.entries.countP fun e => q e.1 := fun q =>
      OrderedMap.countP_insert.trans_le
        (OrderedMap.countP_erase_of_mem (b := entry) (q := fun e => q e.1) hin)
    have hahead : ∀ i, SendWindow.ahead { w with
        inFlight := w.inFlight.insert id (entry.sentAt now) } i ≤ w.ahead i := fun i =>
      Nat.add_le_add_right (hcount fun k => i < k) _
    refine ⟨h.initial, ?_, fun i entry' hmem => ?_⟩
    · have hall := hcount fun _ => true
      simp only [List.countP_true] at hall
      exact hall.trans h.room
    · rcases OrderedMap.mem_insert.mp hmem with hsent | ⟨-, hold⟩
      · obtain ⟨rfl, rfl⟩ := Prod.mk.inj hsent
        exact ((h.paced i entry hin).sentAt hdue hnow).of_ahead (hahead i)
      · exact (h.paced i entry' hold).of_ahead (hahead i)

/-- **The sums of `next_due` stay in range.** -/
theorem Steady.dueFits (h : w.Steady timeout) (htimeout : horizon + 8 * timeout ≤ instantEnd)
    (hnow : now < horizon) : w.DueFits now := by
  intro id entry hfind
  have hdue := List.find?_some hfind
  have hle := (h.paced id entry (List.mem_of_find?_eq_some hfind)).timeout_le hdue hnow
  have hsmall : 32 * horizon ≤ instantEnd := by decide
  have hdouble : instantEnd * 2 = durationEnd := by decide
  have hpos : 0 < horizon := by decide
  rw [longest] at hle
  generalize horizon = horizon at *
  generalize instantEnd = instantEnd at *
  omega

end SendWindow

/-! ### Every window of a run -/

namespace ControlChannel

variable {P : SendWindow → Prop} {c : ControlChannel} {keyId : KeyId} {now : ℕ} {payload : Bytes}

theorem Windows.sendControl (h : c.Windows P)
    (hqueue : ∀ w opcode payload, P w → P (w.queue opcode payload).2) :
    (c.sendControl keyId payload).2.Windows P := by
  unfold ControlChannel.sendControl
  split
  case h_1 state hstate =>
    exact h.withState (hqueue _ _ _ (h.each state (mem_states_of_stateOf hstate)))
  case h_2 => exact h

theorem Windows.drainInto (h : c.Windows P)
    (hqueue : ∀ w opcode payload, P w → P (w.queue opcode payload).2) (outbox : Outbox) :
    (outbox.drainInto c keyId).2.Windows P := by
  have hpiece : ∀ {c c' : ControlChannel} {payload : Bytes} {sent : Bool}, c.Windows P →
      c.sendControl keyId payload = (sent, c') → c'.Windows P := by
    intro c c' payload sent h hsend
    have hsent := @ControlChannel.Windows.sendControl _ _ keyId payload h hqueue
    rwa [hsend] at hsent
  exact drain_invariant (P := fun _ (c' : ControlChannel) => c'.Windows P) h
    (fun _ _ _ h _ hsend => hpiece h hsend) fun _ _ _ h hsend => hpiece h hsend

theorem Windows.nextPacket (h : c.Windows P) (hdue : ∀ w, P w → P (w.nextDue now).2) :
    (c.nextPacket keyId now).2.Windows P := by
  unfold ControlChannel.nextPacket
  split
  case h_1 => exact h
  case h_2 state hstate =>
    dsimp only
    split
    case isTrue => exact h
    case isFalse => exact h.withState (hdue _ (h.each state (mem_states_of_stateOf hstate)))

theorem Windows.pollTransmit (h : c.Windows P) (hdue : ∀ w, P w → P (w.nextDue now).2)
    (hmac : Hmac) (netTime : UInt32) : (c.pollTransmit hmac now netTime).2.Windows P := by
  have hrun : ∀ keyIds (c : ControlChannel), c.Windows P →
      (transmitFrom hmac now netTime keyIds c).2.Windows P := by
    intro keyIds
    induction keyIds with
    | nil => exact fun _ h => h
    | cons keyId keyIds ih =>
        intro c h
        rw [transmitFrom]
        have hnext := @ControlChannel.Windows.nextPacket _ _ keyId _ h hdue
        split
        case h_1 heq =>
          rw [heq] at hnext
          exact ⟨hnext.fresh, hnext.each⟩
        case h_2 heq =>
          rw [heq] at hnext
          exact ih _ hnext
  exact hrun _ c h

end ControlChannel

variable {p : Primitives}

/-- The clock of a call is below the horizon. -/
def SessionEvent.IsEarly : SessionEvent p → Prop
  | .handle _ now _ | .pollTransmit now _ _ | .sendPayload now _ _ => now < horizon
  | .receivePayload _ => True

namespace Session

variable {s t init : Session p} {now timeout : ℕ} {netTime : UInt32}
  {iv : {iv : Bytes // iv.length = 16}} {P : SendWindow → Prop}

/-- Every call of a run is below the horizon. -/
def Early (_ : Session p) (event : SessionEvent p) : Prop := event.IsEarly

/-- No sum of a clock and a timer leaves its range: those of `keepalive_due` and `push_retry_due`
in `next_wakeup`, and those of `next_due` in `poll_transmit`. -/
structure TimersFit (s : Session p) : Prop where
  keepalive : ∀ now due, now < horizon → s.keepaliveDue now = some due → due < instantEnd
  retry : ∀ sent first, s.phase = .awaitingPush → s.pushRequestedAt = some sent →
    s.pushFirstRequestedAt = some first →
      sent + pushRequestInterval < instantEnd ∧ first + pushRequestTimeout < instantEnd
  due : ∀ now t, now < horizon → s.failure = none → s.resendPushRequest now = (.ok (), t) →
    ∀ state ∈ t.flushed.channel.states, state.send.DueFits now

/-- The clocks of a session are below the horizon, and its windows are steady. -/
structure Bounded (timeout : ℕ) (s : Session p) : Prop where
  windows : s.channel.Windows (SendWindow.Steady timeout)
  lastSent : ∀ last, s.lastSent = some last → last < horizon
  requested : ∀ sent, s.pushRequestedAt = some sent → sent < horizon
  first : ∀ first, s.pushFirstRequestedAt = some first → first < horizon

theorem windows_flushed (h : s.channel.Windows P)
    (hqueue : ∀ w opcode payload, P w → P (w.queue opcode payload).2) :
    s.flushed.channel.Windows P := by
  have hprimary : s.flushPrimary.channel.Windows P := h.drainInto hqueue _
  unfold flushed flushRenegotiation
  split
  case h_1 => exact hprimary
  case h_2 => exact hprimary.drainInto hqueue _

theorem channel_resendPushRequest (h : s.resendPushRequest now = (.ok (), t)) :
    t.channel = s.channel := by
  rcases resendPushRequest_ok h with ⟨rfl, -⟩ | ⟨-, state, rfl⟩
  · rfl
  · rfl

theorem channel_pollKeepalive : (s.pollKeepalive now iv).2.channel = s.channel := by
  unfold pollKeepalive
  split
  case h_1 => rfl
  case h_2 =>
    split
    case isTrue => rfl
    case isFalse =>
      split
      case h_1 => rfl
      case h_2 => split <;> rfl

theorem windows_pollTransmit (h : s.channel.Windows P)
    (hqueue : ∀ w opcode payload, P w → P (w.queue opcode payload).2)
    (hdue : ∀ w, P w → P (w.nextDue now).2) :
    (s.pollTransmit now netTime iv).2.channel.Windows P := by
  have hpolls := s.polls now netTime iv
  generalize s.pollTransmit now netTime iv = result at hpolls ⊢
  have hflushed : ∀ {t : Session p}, s.resendPushRequest now = (.ok (), t) →
      t.flushed.channel.Windows P := fun hresend =>
    windows_flushed (channel_resendPushRequest hresend ▸ h) hqueue
  cases hpolls with
  | stopped => exact h
  | failed _ hresend =>
      obtain ⟨state, rfl⟩ := resendPushRequest_error hresend
      exact h
  | sent _ hresend hsent =>
      have hpolled := (hflushed hresend).pollTransmit hdue p.hmac netTime
      rw [hsent] at hpolled
      exact hpolled
  | quiet _ hresend hsent =>
      have hpolled := (hflushed hresend).pollTransmit hdue p.hmac netTime
      rw [hsent] at hpolled
      rw [channel_pollKeepalive]
      exact hpolled

/-- The clocks that a call sets are set to its own. -/
theorem Moved.bounded (h : s.Moved now t) (hs : s.Bounded timeout) (hnow : now < horizon)
    (hwindows : t.channel.Windows (SendWindow.Steady timeout)) : t.Bounded timeout where
  windows := hwindows
  lastSent last hlast := by
    rcases h.lastSent with hsame | hset
    · exact hs.lastSent last (hsame ▸ hlast)
    · rw [hset] at hlast
      exact Option.some.inj hlast ▸ hnow
  requested sent hsent := by
    rcases h.requests with ⟨hsame, -⟩ | ⟨hset, -⟩
    · exact hs.requested sent (hsame ▸ hsent)
    · rw [hset] at hsent
      exact Option.some.inj hsent ▸ hnow
  first first hfirst := by
    rcases h.requests with ⟨-, hsame⟩ | ⟨-, hset⟩
    · exact hs.first first (hsame ▸ hfirst)
    · rw [hset] at hfirst
      rw [← Option.some.inj hfirst]
      cases hold : s.pushFirstRequestedAt with
      | none => exact hnow
      | some first => exact hs.first first hold

theorem Untimed.bounded (h : s.Untimed t) (hs : s.Bounded timeout) : t.Bounded timeout where
  windows := h.windows (fun _ ids hw => hw.acknowledge ids) hs.windows
  lastSent := h.lastSent ▸ hs.lastSent
  requested := h.requested ▸ hs.requested
  first := h.first ▸ hs.first

theorem Bounded.after (h : s.Bounded timeout) {event : SessionEvent p} (hearly : event.IsEarly) :
    (s.after event).Bounded timeout := by
  cases event with
  | handle datagram now fresh => exact (untimed_handle datagram now fresh).bounded h
  | pollTransmit now netTime iv =>
      refine moved_pollTransmit.bounded h hearly ?_
      exact windows_pollTransmit h.windows (fun _ opcode payload hw => hw.queue opcode payload)
        fun _ hw => hw.nextDue hearly
  | sendPayload now payload iv =>
      refine moved_sendPayload.bounded h hearly ?_
      have hchannel : (s.sendPayload now payload iv).2.channel = s.channel := by
        unfold sendPayload
        split
        case h_1 => rfl
        case h_2 => split <;> rfl
      rw [hchannel]
      exact h.windows
  | receivePayload datagram => exact (untimed_receivePayload datagram).bounded h

theorem Bounded.new {auth : TlsAuth} {localSession : SessionId} {tlsTimeout : ℕ}
    {credentials : Option Credentials} {peerTimeout : Option ℕ} {fresh : Fresh p}
    (h : Session.new auth localSession tlsTimeout credentials peerTimeout fresh = .ok init) :
    init.Bounded tlsTimeout := by
  unfold Session.new at h
  split at h
  case h_1 => cases h
  case h_2 =>
    obtain rfl := Except.ok.inj h
    refine ⟨⟨.new tlsTimeout, fun state hmem => ?_⟩, nofun, nofun, nofun⟩
    rcases ControlChannel.mem_states.mp hmem with rfl | hnone
    · exact (SendWindow.Steady.new tlsTimeout).queue _ _
    · cases hnone

/-- **No timer leaves its range** in any state of a run whose clock stays below 2^40 seconds, when
the interval that was pushed, if there is one, leaves that much room. -/
theorem timers_fit {auth : TlsAuth} {localSession : SessionId} {tlsTimeout : ℕ}
    {credentials : Option Credentials} {peerTimeout : Option ℕ} {fresh : Fresh p}
    (hnew : Session.new auth localSession tlsTimeout credentials peerTimeout fresh = .ok init)
    (htimeout : horizon + 8 * tlsTimeout ≤ instantEnd) (hs : Reaches Step Early init s)
    (hping : ∀ reply interval, s.push = some reply → reply.ping = some interval →
      horizon + interval ≤ instantEnd) : s.TimersFit := by
  have hbounded : s.Bounded tlsTimeout := hs.invariant (Bounded.new hnew)
    fun hs hearly hstep => by
      rw [hstep]
      exact hs.after hearly
  have hroom : horizon + pushRequestTimeout < instantEnd := by decide
  have hshort : pushRequestInterval ≤ pushRequestTimeout := by decide
  refine ⟨fun now due hnow hdue => ?_, fun sent first _ hsent hfirst => ?_, ?_⟩
  · unfold keepaliveDue at hdue
    split at hdue
    case h_1 => cases hdue
    case h_2 interval hinterval =>
      obtain ⟨reply, hreply, hinterval⟩ := Option.bind_eq_some_iff.mp hinterval
      have hfits := hping reply interval hreply hinterval
      split at hdue
      case h_1 => cases hdue
      case h_2 =>
        split at hdue
        case h_1 last hlast =>
          have hlate := hbounded.lastSent last hlast
          have heq := Option.some.inj hdue
          omega
        case h_2 =>
          have heq := Option.some.inj hdue
          omega
  · have hsent' := hbounded.requested sent hsent
    have hfirst' := hbounded.first first hfirst
    omega
  · intro now t hnow _ hresend state hmem
    have hflushed := windows_flushed (P := SendWindow.Steady tlsTimeout)
      (channel_resendPushRequest hresend ▸ hbounded.windows)
      fun _ opcode payload hw => hw.queue opcode payload
    exact (hflushed.each state hmem).dueFits htimeout hnow

theorem everyStep_early {events : List (SessionEvent p)}
    (h : ∀ event ∈ events, event.IsEarly) (s : Session p) :
    EveryStep Session.after Early s events := by
  induction events generalizing s with
  | nil => trivial
  | cons event events ih =>
      exact ⟨h event List.mem_cons_self, ih (fun e he => h e (List.mem_cons_of_mem _ he)) _⟩

theorem reaches_pushed_early (text : Bytes) (id : UInt32) :
    Reaches Step Early opening (pushed text id) := by
  have hpos : 0 < horizon := by decide
  have hkeyed : Reaches Step Early opening keyed :=
    Reaches.start.events (everyStep_early (by
      simp [keyedRun, pollAt, arrivalOf, SessionEvent.IsEarly, hpos]) opening)
  exact hkeyed.events (everyStep_early (by
    simp [pushedRun, pollAt, arrivalOf, SessionEvent.IsEarly, hpos]) keyed)

theorem ten_seconds_fit : tenSeconds.TimersFit := by
  have hping : tenSeconds.push.map (·.ping) = some (some (fromSecs 10)) := by decide +kernel
  refine timers_fit (new_clearSession ..) (by decide) (reaches_pushed_early _ _) ?_
  intro reply interval hreply hinterval
  have hreply : (pushed (ascii "PUSH_REPLY,ping 10") 4).push = some reply := hreply
  rw [tenSeconds, hreply, Option.map_some, hinterval] at hping
  rw [Option.some.inj (Option.some.inj hping)]
  decide

/-- The longest interval that a push reply can ask for. -/
theorem longest_interval_overflows :
    ¬∀ s : Session intervalPrimitives, Reaches Step Early opening s → s.TimersFit := by
  intro h
  have hdue : (pushed (ascii "PUSH_REPLY,ping 18446744073709551615") 5).keepaliveDue 0 =
      some (fromSecs (2 ^ 64 - 1)) := by
    decide +kernel
  have hlate := (h _ (reaches_pushed_early _ _)).keepalive 0 _ (by decide) hdue
  revert hlate
  decide

end Session

end SynologyFilestation.Openvpn
