import SynologyFilestation.Openvpn.Reliable
import Mathlib.Data.List.Induction

/-!
What a receive window owes.

The ids that are owed wait in a queue, and every batch of acknowledgements takes from its
front as many as fit. So an id's place in the queue says how many batches it can be from being
offered, and it leaves the queue in no other way.
-/

namespace SynologyFilestation.Openvpn

open Core

/-- The calls that change a receive window. -/
inductive RecvCall
  | accept (packetId : UInt32) (opcode : Opcode) (payload : Bytes)
  | nextInOrder
  | takeAcks (max : ℕ)

namespace RecvWindow

def after (w : RecvWindow) : RecvCall → RecvWindow
  | .accept packetId opcode payload => (w.accept packetId opcode payload).2
  | .nextInOrder => w.nextInOrder.2
  | .takeAcks max => (w.takeAcks max).2

/-- The batches of acknowledgements that come of the calls, first to last. -/
def offered : RecvWindow → List RecvCall → List (List UInt32)
  | _, [] => []
  | w, .takeAcks max :: calls => (w.takeAcks max).1 :: offered (w.takeAcks max).2 calls
  | w, call :: calls => offered (w.after call) calls

/-- The ids that were worth an acknowledgement when they were offered. -/
def accepted : RecvWindow → List RecvCall → List UInt32
  | _, [] => []
  | w, .accept packetId opcode payload :: calls =>
      (if (w.accept packetId opcode payload).1.shouldAcknowledge then [packetId] else []) ++
        accepted (w.accept packetId opcode payload).2 calls
  | w, call :: calls => accepted (w.after call) calls

/-- How many ids a batch has room for. -/
def room (max : ℕ) : ℕ := min max recentCapacity

/-- The room of each batch, first to last. -/
def rooms : List RecvCall → List ℕ
  | [] => []
  | .takeAcks max :: calls => room max :: rooms calls
  | _ :: calls => rooms calls

variable {w : RecvWindow} {id i : UInt32} {ids recent : List UInt32} {opcode : Opcode}
  {payload : Bytes} {max : ℕ} {calls : List RecvCall}

/-! ### One batch -/

theorem nodup_promote (h : recent.Nodup) : (promote recent id).Nodup := by
  rw [promote, List.nodup_cons]
  exact ⟨fun hmem => by simp at hmem, h.filter _⟩

theorem nodup_foldl_promote (h : recent.Nodup) : (ids.foldl promote recent).Nodup := by
  induction ids generalizing recent with
  | nil => exact h
  | cons id ids ih => exact ih (nodup_promote h)

/-- What is promoted comes before everything that is not. -/
theorem mem_take_foldl_promote (h : i ∈ ids) : i ∈ (ids.foldl promote recent).take ids.length := by
  induction ids using List.reverseRecOn with
  | nil => cases h
  | append_singleton ids id ih =>
      rw [List.foldl_append, List.foldl_cons, List.foldl_nil, List.length_append,
        List.length_singleton, promote, List.take_succ_cons]
      by_cases hi : i = id
      · rw [hi]
        exact List.mem_cons_self
      · refine List.mem_cons_of_mem _ ?_
        have hold : i ∈ ids := (List.mem_append.mp h).resolve_right fun hnew =>
          hi (List.mem_singleton.mp hnew)
        have hfront : ((ids.foldl promote recent).take ids.length).filter (· ≠ id) <+:
            ((ids.foldl promote recent).filter (· ≠ id)).take ids.length := by
          refine List.prefix_take_iff.mpr ⟨(List.take_prefix ..).filter _, ?_⟩
          exact (List.length_filter_le ..).trans (List.length_take_le ..)
        exact hfront.subset (List.mem_filter.mpr ⟨ih hold, decide_eq_true hi⟩)

theorem length_takeAcks (w : RecvWindow) (max : ℕ) : (w.takeAcks max).1.length ≤ room max :=
  List.length_take_le ..

/-- What is taken off the queue is offered. -/
theorem mem_takeAcks (h : i ∈ w.pendingAcks.take (room max)) : i ∈ (w.takeAcks max).1 := by
  have hfront := @mem_take_foldl_promote _ _ w.recentAcks (List.mem_reverse.mpr h)
  have hlength : (w.pendingAcks.take (room max)).reverse.length ≤ room max := by
    rw [List.length_reverse]
    exact List.length_take_le ..
  change i ∈ ((((w.pendingAcks.take (room max)).reverse.foldl promote w.recentAcks).take
    recentCapacity).take (room max))
  have hroom : room max ≤ recentCapacity := Nat.min_le_right ..
  rw [List.take_take, min_eq_left hroom]
  exact List.take_subset_take_left _ hlength hfront

theorem pendingAcks_takeAcks (w : RecvWindow) (max : ℕ) :
    (w.takeAcks max).2.pendingAcks = w.pendingAcks.drop (room max) := rfl

/-! ### A place in the queue -/

theorem pendingAcks_nextInOrder : w.nextInOrder.2.pendingAcks = w.pendingAcks := by
  unfold nextInOrder
  split <;> rfl

/-- Nothing that is accepted comes before what is owed already. -/
theorem pendingAcks_accept_behind (w : RecvWindow) (id : UInt32) (opcode : Opcode)
    (payload : Bytes) : w.pendingAcks <+: (w.accept id opcode payload).2.pendingAcks := by
  have howe : ∀ w' : RecvWindow, w'.pendingAcks <+: (w'.owe id).pendingAcks := by
    intro w'
    unfold owe
    split
    case isTrue => exact List.prefix_rfl
    case isFalse => exact List.prefix_append ..
  rcases w.accept_cases id opcode payload with ⟨-, heq⟩ | ⟨-, -, heq⟩ | ⟨-, -, heq⟩
  · exact heq ▸ List.prefix_rfl
  · rw [heq]
    exact howe w
  · rw [heq]
    exact howe { w with buffered := w.buffered.insert id (opcode, payload) }

theorem mem_pendingAcks_accept
    (h : (w.accept id opcode payload).1.shouldAcknowledge = true) :
    id ∈ (w.accept id opcode payload).2.pendingAcks := by
  have howe : ∀ w' : RecvWindow, id ∈ (w'.owe id).pendingAcks := by
    intro w'
    unfold owe
    split
    case isTrue hmem => exact hmem
    case isFalse => exact List.mem_append_right _ List.mem_cons_self
  rcases w.accept_cases id opcode payload with ⟨-, heq⟩ | ⟨-, -, heq⟩ | ⟨-, -, heq⟩
  · rw [heq] at h
    cases h
  · rw [heq]
    exact howe w
  · rw [heq]
    exact howe { w with buffered := w.buffered.insert id (opcode, payload) }

/-- **An id's turn comes.** It is offered in the batch by which the rooms come to more than its
place. -/
theorem mem_offered {place batches : ℕ} (hplace : w.pendingAcks[place]? = some id)
    (hbatches : batches ≤ (rooms calls).length)
    (hroom : place < ((rooms calls).take batches).sum) :
    ∃ ids ∈ (w.offered calls).take batches, id ∈ ids := by
  induction calls generalizing w place batches with
  | nil => simp [rooms] at hroom
  | cons call calls ih =>
      cases call with
      | accept id' opcode payload =>
          have hkept : (w.accept id' opcode payload).2.pendingAcks[place]? = some id := by
            obtain ⟨new, hnew⟩ := pendingAcks_accept_behind w id' opcode payload
            rw [← hnew, List.getElem?_append_left (List.getElem?_eq_some_iff.mp hplace).1]
            exact hplace
          exact ih hkept hbatches hroom
      | nextInOrder =>
          have hkept : w.nextInOrder.2.pendingAcks[place]? = some id := by
            rw [pendingAcks_nextInOrder]
            exact hplace
          exact ih hkept hbatches hroom
      | takeAcks max =>
          cases batches with
          | zero => simp at hroom
          | succ batches =>
              rw [offered, List.take_succ_cons]
              by_cases hnow : place < room max
              · refine ⟨_, List.mem_cons_self, mem_takeAcks ?_⟩
                refine List.mem_of_getElem? (i := place) ?_
                rw [List.getElem?_take_of_lt hnow]
                exact hplace
              · have hlater : (w.takeAcks max).2.pendingAcks[place - room max]? = some id := by
                  rw [pendingAcks_takeAcks, List.getElem?_drop,
                    Nat.add_sub_of_le (Nat.le_of_not_lt hnow)]
                  exact hplace
                rw [rooms, List.take_succ_cons, List.sum_cons] at hroom
                rw [rooms, List.length_cons] at hbatches
                obtain ⟨ids, hids, hid⟩ := ih hlater (Nat.le_of_succ_le_succ hbatches) (by omega)
                exact ⟨ids, List.mem_cons_of_mem _ hids, hid⟩

/-- As many batches as there are places reach the last of them, where each has room. -/
theorem le_sum_rooms {batches : ℕ} (hmax : ∀ max, RecvCall.takeAcks max ∈ calls → 1 ≤ max)
    (hbatches : batches ≤ (rooms calls).length) : batches ≤ ((rooms calls).take batches).sum := by
  induction calls generalizing batches with
  | nil => exact hbatches.trans (Nat.zero_le _)
  | cons call calls ih =>
      have hrest := fun max hmem => hmax max (List.mem_cons_of_mem call hmem)
      cases call with
      | accept => exact ih hrest hbatches
      | nextInOrder => exact ih hrest hbatches
      | takeAcks max =>
          cases batches with
          | zero => exact Nat.zero_le _
          | succ batches =>
              have hroom : 1 ≤ room max := le_min (hmax max List.mem_cons_self) (by decide)
              have hlater := ih hrest (Nat.le_of_succ_le_succ hbatches)
              rw [rooms, List.take_succ_cons, List.sum_cons]
              omega

/-- Rooms that are all the same. -/
theorem sum_rooms {batches : ℕ} (hmax : ∀ m, RecvCall.takeAcks m ∈ calls → m = max)
    (hbatches : batches ≤ (rooms calls).length) :
    ((rooms calls).take batches).sum = batches * room max := by
  induction calls generalizing batches with
  | nil =>
      obtain rfl := Nat.le_zero.mp hbatches
      rw [Nat.zero_mul, List.take_zero, List.sum_nil]
  | cons call calls ih =>
      have hrest := fun m hmem => hmax m (List.mem_cons_of_mem call hmem)
      cases call with
      | accept => exact ih hrest hbatches
      | nextInOrder => exact ih hrest hbatches
      | takeAcks m =>
          obtain rfl := hmax m List.mem_cons_self
          cases batches with
          | zero => rw [Nat.zero_mul, List.take_zero, List.sum_nil]
          | succ batches =>
              rw [rooms, List.take_succ_cons, List.sum_cons,
                ih hrest (Nat.le_of_succ_le_succ hbatches), Nat.succ_mul, Nat.add_comm]

theorem length_rooms (w : RecvWindow) (calls : List RecvCall) :
    (rooms calls).length = (w.offered calls).length := by
  induction calls generalizing w with
  | nil => rfl
  | cons call calls ih =>
      cases call with
      | accept => exact ih _
      | nextInOrder => exact ih _
      | takeAcks => exact congrArg (· + 1) (ih _)

/-- What is owed no longer was offered. -/
theorem mem_offered_of_not_owing (hmem : id ∈ w.pendingAcks)
    (hnone : (calls.foldl after w).owesAcks = false) : ∃ ids ∈ w.offered calls, id ∈ ids := by
  induction calls generalizing w with
  | nil =>
      rw [List.foldl_nil, owesAcks, Bool.not_eq_false', List.isEmpty_iff] at hnone
      rw [hnone] at hmem
      cases hmem
  | cons call calls ih =>
      cases call with
      | accept id' opcode payload =>
          exact ih ((pendingAcks_accept_behind w id' opcode payload).subset hmem) hnone
      | nextInOrder =>
          refine ih ?_ hnone
          rw [after, pendingAcks_nextInOrder]
          exact hmem
      | takeAcks max =>
          rw [offered]
          rw [← List.take_append_drop (room max) w.pendingAcks, List.mem_append] at hmem
          rcases hmem with hnow | hlater
          · exact ⟨_, List.mem_cons_self, mem_takeAcks hnow⟩
          · obtain ⟨ids, hids, hid⟩ := ih hlater hnone
            exact ⟨ids, List.mem_cons_of_mem _ hids, hid⟩

/-! ### What is in a batch -/

theorem owes_accept (h : (w.accept id opcode payload).2.Owes i) :
    w.Owes i ∨ i = id ∧ (w.accept id opcode payload).1.shouldAcknowledge = true := by
  rcases w.accept_cases id opcode payload with ⟨-, heq⟩ | ⟨-, -, heq⟩ | ⟨-, -, heq⟩
  · rw [heq] at h
    exact .inl h
  · rw [heq] at h ⊢
    exact (owes_owe h).symm.imp_right fun hi => ⟨hi, rfl⟩
  · rw [heq] at h ⊢
    exact (owes_owe h).symm.imp_right fun hi => ⟨hi, rfl⟩

theorem owes_nextInOrder (h : w.nextInOrder.2.Owes i) : w.Owes i := by
  unfold nextInOrder at h
  split at h
  case h_1 => exact h
  case h_2 => exact h

/-- What is owed after some calls was accepted by one of them, or owed before. -/
theorem owes_foldl (h : (calls.foldl after w).Owes i) : w.Owes i ∨ i ∈ w.accepted calls := by
  induction calls generalizing w with
  | nil => exact .inl h
  | cons call calls ih =>
      cases call with
      | accept id opcode payload =>
          rw [accepted, List.mem_append]
          rcases ih h with hnow | hlater
          · refine (owes_accept hnow).imp_right ?_
            rintro ⟨rfl, hverdict⟩
            rw [if_pos hverdict]
            exact .inl List.mem_cons_self
          · exact .inr (.inr hlater)
      | nextInOrder => exact (ih h).imp_left owes_nextInOrder
      | takeAcks max => exact (ih h).imp_left ((takeAcks_eq rfl).2.2.2 i)

theorem nodup_recentAcks (calls : List RecvCall) (h : w.recentAcks.Nodup) :
    (calls.foldl after w).recentAcks.Nodup := by
  induction calls generalizing w with
  | nil => exact h
  | cons call calls ih =>
      refine ih ?_
      cases call with
      | accept id opcode payload =>
          have howe : ∀ w' : RecvWindow, (w'.owe id).recentAcks = w'.recentAcks := by
            intro w'
            unfold owe
            split <;> rfl
          rw [after]
          rcases w.accept_cases id opcode payload with ⟨-, heq⟩ | ⟨-, -, heq⟩ | ⟨-, -, heq⟩
          · rw [heq]
            exact h
          · rw [heq, howe]
            exact h
          · rw [heq, howe]
            exact h
      | nextInOrder =>
          rw [after, nextInOrder]
          split <;> exact h
      | takeAcks max => exact (nodup_foldl_promote h).sublist (List.take_sublist ..)

theorem nodup_takeAcks (h : w.recentAcks.Nodup) : (w.takeAcks max).1.Nodup := by
  have hrecent : ((w.pendingAcks.take (room max)).reverse.foldl promote w.recentAcks).Nodup :=
    nodup_foldl_promote h
  exact (hrecent.sublist (List.take_sublist ..)).sublist (List.take_sublist ..)

/-- **A receive window owes exactly what it accepted.** An id that is accepted while `k` are owed
is offered in one of the next `k` batches, sooner where each has room for several, and before the
window owes nothing; a batch repeats nothing, is no longer than it may be, and names only ids that
were accepted. -/
theorem owes_exactly (before : List RecvCall) :
    let w := before.foldl after new
    (∀ id opcode payload, (w.accept id opcode payload).1.shouldAcknowledge = true →
      let owing := (w.accept id opcode payload).2
      let k := owing.pendingAcks.length
      ∀ calls, (∀ max, .takeAcks max ∈ calls → 1 ≤ max) →
        (k ≤ (owing.offered calls).length → ∃ ids ∈ (owing.offered calls).take k, id ∈ ids) ∧
          (∀ max, 1 ≤ max → (∀ m, .takeAcks m ∈ calls → m = max) →
            (k + min max 8 - 1) / min max 8 ≤ (owing.offered calls).length →
              ∃ ids ∈ (owing.offered calls).take ((k + min max 8 - 1) / min max 8), id ∈ ids) ∧
            ((calls.foldl after owing).owesAcks = false → ∃ ids ∈ owing.offered calls, id ∈ ids)) ∧
      ∀ max, (w.takeAcks max).1.Nodup ∧ (w.takeAcks max).1.length ≤ min max 8 ∧
        ∀ id ∈ (w.takeAcks max).1, id ∈ new.accepted before := by
  intro w
  refine ⟨?_, fun max => ?_⟩
  · intro id opcode payload hverdict owing k calls hmax
    have hmem : id ∈ owing.pendingAcks := mem_pendingAcks_accept hverdict
    obtain ⟨place, hlt, hplace⟩ := List.getElem_of_mem hmem
    have hplace : owing.pendingAcks[place]? = some id := by
      rw [List.getElem?_eq_getElem hlt, hplace]
    refine ⟨fun hk => ?_, fun max hpos hconstant hk => ?_, mem_offered_of_not_owing hmem⟩
    · rw [← length_rooms] at hk
      exact mem_offered hplace hk (hlt.trans_le (le_sum_rooms hmax hk))
    · rw [← length_rooms] at hk
      refine mem_offered hplace hk ?_
      rw [sum_rooms hconstant hk]
      have hroom : 0 < min max 8 := lt_min hpos (by decide)
      have hceil := Nat.lt_mul_div_succ (k + min max 8 - 1) hroom
      change place < (k + min max 8 - 1) / min max 8 * min max 8
      rw [Nat.mul_add, Nat.mul_one, Nat.mul_comm] at hceil
      omega
  · refine ⟨nodup_takeAcks (nodup_recentAcks before List.nodup_nil), length_takeAcks w max, ?_⟩
    intro id hid
    exact (owes_foldl ((takeAcks_eq rfl).2.2.1 id hid)).resolve_left not_owes_new

/-- Of ten that are owed two batches of eight offer the tenth. -/
theorem tenth_ack_offered :
    let calls := (List.range 9).map fun id => RecvCall.accept (.ofNat id) .controlV1 []
    let owing := ((calls.foldl after new).accept 9 .controlV1 []).2
    ∃ ids ∈ (owing.offered [.takeAcks 8, .nextInOrder, .takeAcks 8]).take 2, 9 ∈ ids := by
  intro calls owing
  have h := ((owes_exactly calls).1 9 .controlV1 [] (by decide +kernel)
    [.takeAcks 8, .nextInOrder, .takeAcks 8] (by simp)).2.1 8 (by decide) (by simp)
  have hbatches : (((calls.foldl after new).accept 9 .controlV1 []).2.pendingAcks.length +
      min 8 8 - 1) / min 8 8 = 2 := by
    decide +kernel
  rw [hbatches] at h
  exact h (by decide +kernel)

end RecvWindow

end SynologyFilestation.Openvpn
