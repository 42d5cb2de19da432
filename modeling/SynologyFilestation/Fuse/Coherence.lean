import SynologyFilestation.Fuse.ReadCache
import Mathlib.Order.Lattice

/-!
Coherence of the read cache: a read asked after an invalidation has returned is
not answered with a block whose download began before it.

Nothing ties a download to the invalidations that overtake it, so the cache is
coherent only in runs where none does. `Fenced` is the condition, and `Ages` the
invariant under it: a block older than an invalidation is one that invalidation
has yet to evict.
-/

namespace SynologyFilestation.Fuse

open Function Library

/-- No read returns a block older than an invalidation that had returned when
the read was asked. -/
def Coherent (s : System) : Prop :=
  ∀ n r block, s.reads n = some r → r.phase = .returned block → r.since ≤ block.began

/-- A block is put in the cache only when no invalidation of its file has begun
since its download did, and an invalidation takes a file's list only when every
cached block of the file is on it. -/
def Fenced (s : System) : Event → Prop
  | .put slot => ∀ d, s.downloads slot = some d → d.block.began = s.begun d.key.1
  | .take _ ino => ∀ idx block, s.cache.blocks (ino, idx) = some block →
      idx ∈ s.cache.inoBlocks ino
  | _ => True

/-- The blocks in the cache against the invalidations that have begun. -/
structure Ages (blocks : BlockKey → Option Block) (invalidations : ℕ → Option Invalidation)
    (begun settled : ℕ → ℕ) : Prop where
  settled_le : ∀ ino, settled ino ≤ begun ino
  number_le : ∀ n v, invalidations n = some v → v.number ≤ begun v.ino
  number_inj : ∀ n n' v v', invalidations n = some v → invalidations n' = some v' →
    v.ino = v'.ino → v.number = v'.number → n = n'
  cached : ∀ ino idx block, blocks (ino, idx) = some block → settled ino ≤ block.began
  /-- An invalidation begun after the block's download has yet to evict it. -/
  doomed : ∀ ino idx block, blocks (ino, idx) = some block →
    ∀ m, block.began < m → m ≤ begun ino →
      ∃ n v, invalidations n = some v ∧ v.ino = ino ∧ v.number = m ∧ .evict idx ∈ v.ops

section Ages

variable {blocks : BlockKey → Option Block} {invalidations : ℕ → Option Invalidation}
  {begun settled : ℕ → ℕ} {n ino idx : ℕ} {v : Invalidation}

/-- A block put while no younger invalidation has begun. -/
theorem Ages.put (h : Ages blocks invalidations begun settled) {key : BlockKey} {block : Block}
    (hbegan : block.began = begun key.1) :
    Ages (update blocks key (some block)) invalidations begun settled where
  settled_le := h.settled_le
  number_le := h.number_le
  number_inj := h.number_inj
  cached := by
    intro ino idx b hb
    rcases update_eq_some hb with ⟨rfl, rfl⟩ | ⟨_, hb⟩
    · rw [hbegan]
      exact h.settled_le ino
    · exact h.cached ino idx b hb
  doomed := by
    intro ino idx b hb m hlt hle
    rcases update_eq_some hb with ⟨rfl, rfl⟩ | ⟨_, hb⟩
    · exact absurd hle (by rw [← hbegan]; omega)
    · exact h.doomed ino idx b hb m hlt hle

theorem Ages.evict (h : Ages blocks invalidations begun settled) (key : BlockKey) :
    Ages (update blocks key none) invalidations begun settled where
  settled_le := h.settled_le
  number_le := h.number_le
  number_inj := h.number_inj
  cached ino idx b hb := h.cached ino idx b (update_none_eq_some hb).2
  doomed ino idx b hb := h.doomed ino idx b (update_none_eq_some hb).2

/-- An invalidation goes on to other steps, no block it has yet to evict being
left out. -/
theorem Ages.advance (h : Ages blocks invalidations begun settled)
    (hv : invalidations n = some v) {ops : List InvalidateOp}
    (hops : ∀ idx block, blocks (v.ino, idx) = some block → .evict idx ∈ v.ops →
      .evict idx ∈ ops) :
    Ages blocks (update invalidations n (some { v with ops := ops })) begun settled := by
  -- Advancing changes what is left to do and neither file nor number.
  have hsame : ∀ n' v', update invalidations n (some { v with ops := ops }) n' = some v' →
      ∃ w, invalidations n' = some w ∧ v'.ino = w.ino ∧ v'.number = w.number := by
    intro n' v' hv'
    rcases update_eq_some hv' with ⟨rfl, rfl⟩ | ⟨_, hv'⟩
    · exact ⟨v, hv, rfl, rfl⟩
    · exact ⟨v', hv', rfl, rfl⟩
  refine ⟨h.settled_le, ?_, ?_, h.cached, ?_⟩
  · intro n' v' hv'
    obtain ⟨w, hw, hino, hnumber⟩ := hsame n' v' hv'
    rw [hino, hnumber]
    exact h.number_le n' w hw
  · intro n₁ n₂ v₁ v₂ h₁ h₂ hino hnumber
    obtain ⟨w₁, hw₁, hi₁, hn₁⟩ := hsame n₁ v₁ h₁
    obtain ⟨w₂, hw₂, hi₂, hn₂⟩ := hsame n₂ v₂ h₂
    exact h.number_inj n₁ n₂ w₁ w₂ hw₁ hw₂ (by rw [← hi₁, ← hi₂, hino])
      (by rw [← hn₁, ← hn₂, hnumber])
  · intro ino idx block hblock m hlt hle
    obtain ⟨n', v', hv', rfl, hm, hmem⟩ := h.doomed ino idx block hblock m hlt hle
    rcases eq_or_ne n' n with rfl | hne
    · obtain rfl : v = v' := Option.some.inj (hv.symm.trans hv')
      exact ⟨n', _, update_self .., rfl, hm, hops idx block hblock hmem⟩
    · exact ⟨n', v', by rw [update_of_ne hne]; exact hv', rfl, hm, hmem⟩

/-- A new invalidation whose list holds every cached block of its file. -/
theorem Ages.take (h : Ages blocks invalidations begun settled) (hnew : invalidations n = none)
    {taken : List ℕ} (hlisted : ∀ idx block, blocks (ino, idx) = some block → idx ∈ taken) :
    Ages blocks
      (update invalidations n
        (some { ino := ino, number := begun ino + 1, ops := invalidateOps taken }))
      (update begun ino (begun ino + 1)) settled := by
  have hbegun : ∀ i, begun i ≤ update begun ino (begun ino + 1) i := by
    intro i
    rcases eq_or_ne i ino with rfl | hne
    · simp
    · rw [update_of_ne hne]
  refine ⟨fun i => (h.settled_le i).trans (hbegun i), ?_, ?_, h.cached, ?_⟩
  · intro n' v' hv'
    rcases update_eq_some hv' with ⟨rfl, rfl⟩ | ⟨_, hv'⟩
    · simp
    · exact (h.number_le n' v' hv').trans (hbegun _)
  · intro n₁ n₂ v₁ v₂ h₁ h₂ hino hnumber
    -- The new number is above every number of the file.
    have habove : ∀ m w, invalidations m = some w → w.ino = ino →
        w.number ≠ begun ino + 1 := by
      intro m w hw hi hnum
      have := h.number_le m w hw
      rw [hi, hnum] at this
      omega
    rcases update_eq_some h₁ with ⟨heq₁, rfl⟩ | ⟨_, h₁⟩ <;>
      rcases update_eq_some h₂ with ⟨heq₂, rfl⟩ | ⟨_, h₂⟩
    · exact heq₁.trans heq₂.symm
    · exact absurd hnumber.symm (habove n₂ v₂ h₂ hino.symm)
    · exact absurd hnumber (habove n₁ v₁ h₁ hino)
    · exact h.number_inj n₁ n₂ v₁ v₂ h₁ h₂ hino hnumber
  · intro i idx block hblock m hlt hle
    by_cases hm : m ≤ begun i
    · obtain ⟨n', v', hv', hino, hm', hmem⟩ := h.doomed i idx block hblock m hlt hm
      have hne : n' ≠ n := by
        rintro rfl
        rw [hnew] at hv'
        simp at hv'
      exact ⟨n', v', by rw [update_of_ne hne]; exact hv', hino, hm', hmem⟩
    · have hi : i = ino := by
        by_contra hne
        rw [update_of_ne hne] at hle
        exact hm hle
      subst hi
      rw [update_self] at hle
      refine ⟨n, _, update_self .., rfl, (show begun i + 1 = m by omega), ?_⟩
      simp only [invalidateOps, List.mem_append, List.mem_flatMap]
      exact Or.inl ⟨idx, hlisted idx block hblock, by simp⟩

/-- An invalidation that has nothing left to do has evicted every block older
than itself. -/
theorem Ages.settle (h : Ages blocks invalidations begun settled)
    (hv : invalidations n = some v) (hops : v.ops = []) :
    Ages blocks invalidations begun
      (update settled v.ino (max (settled v.ino) v.number)) := by
  refine ⟨?_, h.number_le, h.number_inj, ?_, h.doomed⟩
  · intro i
    rcases eq_or_ne i v.ino with rfl | hne
    · rw [update_self]
      exact max_le (h.settled_le _) (h.number_le n v hv)
    · rw [update_of_ne hne]
      exact h.settled_le i
  · intro i idx block hblock
    rcases eq_or_ne i v.ino with rfl | hne
    · rw [update_self]
      refine max_le (h.cached _ idx block hblock) ?_
      by_contra hlt
      obtain ⟨n', v', hv', hino, hnumber, hmem⟩ :=
        h.doomed _ idx block hblock v.number (by omega) (h.number_le n v hv)
      obtain rfl : n' = n := h.number_inj n' n v' v hv' hv hino hnumber
      obtain rfl : v = v' := Option.some.inj (hv.symm.trans hv')
      rw [hops] at hmem
      simp at hmem
    · rw [update_of_ne hne]
      exact h.cached i idx block hblock

end Ages

/-! ### What the reads hold -/

/-- A download that began, and whose block may still be returned. -/
def Phase.underway : Phase → Bool
  | .downloading | .fetched | .put | .listed | .ringing true _ | .done true => true
  | _ => false

/-- The reads against the downloads they own and the invalidations that have
returned. -/
structure Asked (reads : ℕ → Option Read) (downloads : ℕ → Option Download) (settled : ℕ → ℕ)
    (slots : ℕ) : Prop where
  since_le : ∀ n r, reads n = some r → r.since ≤ settled r.key.1
  slot_lt : ∀ slot d, downloads slot = some d → slot < slots
  owned : ∀ n r slot, reads n = some r → r.phase = .owning slot →
    ∃ d, downloads slot = some d ∧ d.key = r.key ∧
      (d.phase.underway = true → r.since ≤ d.block.began)
  returned : ∀ n r block, reads n = some r → r.phase = .returned block → r.since ≤ block.began

section Asked

variable {reads : ℕ → Option Read} {downloads : ℕ → Option Download} {settled : ℕ → ℕ}
  {slots n slot : ℕ} {r : Read} {d : Download}

/-- A read is set to one that meets what is asked of reads. -/
theorem Asked.setRead (h : Asked reads downloads settled slots) {r' : Read}
    (hsince : r'.since ≤ settled r'.key.1)
    (howned : ∀ slot, r'.phase = .owning slot → ∃ d, downloads slot = some d ∧ d.key = r'.key ∧
      (d.phase.underway = true → r'.since ≤ d.block.began))
    (hreturned : ∀ block, r'.phase = .returned block → r'.since ≤ block.began) :
    Asked (update reads n (some r')) downloads settled slots := by
  refine ⟨?_, h.slot_lt, ?_, ?_⟩
  · intro m q hq
    rcases update_eq_some hq with ⟨_, rfl⟩ | ⟨_, hq⟩
    · exact hsince
    · exact h.since_le m q hq
  · intro m q slot hq hphase
    rcases update_eq_some hq with ⟨_, rfl⟩ | ⟨_, hq⟩
    · exact howned slot hphase
    · exact h.owned m q slot hq hphase
  · intro m q block hq hphase
    rcases update_eq_some hq with ⟨_, rfl⟩ | ⟨_, hq⟩
    · exact hreturned block hphase
    · exact h.returned m q block hq hphase

/-- A read goes on to another phase. -/
theorem Asked.moveRead (h : Asked reads downloads settled slots) (hr : reads n = some r)
    {phase : ReadPhase}
    (howned : ∀ slot, phase = .owning slot → ∃ d, downloads slot = some d ∧ d.key = r.key ∧
      (d.phase.underway = true → r.since ≤ d.block.began))
    (hreturned : ∀ block, phase = .returned block → r.since ≤ block.began) :
    Asked (update reads n (some { r with phase := phase })) downloads settled slots :=
  h.setRead (h.since_le n r hr) howned hreturned

/-- A read is asked. -/
theorem Asked.ask (h : Asked reads downloads settled slots) (key : BlockKey) :
    Asked (update reads n (some { key := key, phase := .asked, since := settled key.1 }))
      downloads settled slots :=
  h.setRead le_rfl nofun nofun

/-- A download goes on: with the block it had, or with one no older than the
invalidations that have returned. -/
theorem Asked.moveDownload (h : Asked reads downloads settled slots)
    (hd : downloads slot = some d) {d' : Download} (hkey : d'.key = d.key)
    (hbegan : d'.phase.underway = true →
      d.phase.underway = true ∧ d'.block.began = d.block.began ∨
        settled d.key.1 ≤ d'.block.began) :
    Asked reads (update downloads slot (some d')) settled slots := by
  refine ⟨h.since_le, ?_, ?_, h.returned⟩
  · intro m e he
    rcases update_eq_some he with ⟨rfl, _⟩ | ⟨_, he⟩
    · exact h.slot_lt m d hd
    · exact h.slot_lt m e he
  · intro m q slot' hq hphase
    obtain ⟨e, he, hekey, hsince⟩ := h.owned m q slot' hq hphase
    rcases eq_or_ne slot' slot with rfl | hne
    · obtain rfl : d = e := Option.some.inj (hd.symm.trans he)
      refine ⟨d', update_self .., hkey.trans hekey, fun hunder => ?_⟩
      rcases hbegan hunder with ⟨hwas, hsame⟩ | hrecent
      · rw [hsame]
        exact hsince hwas
      · rw [hekey] at hrecent
        exact (h.since_le m q hq).trans hrecent
    · exact ⟨e, by rw [update_of_ne hne]; exact he, hekey, hsince⟩

/-- A new download, in a slot of its own. -/
theorem Asked.startDownload (h : Asked reads downloads settled slots) (d : Download) :
    Asked reads (update downloads slots (some d)) settled (slots + 1) := by
  refine ⟨h.since_le, ?_, ?_, h.returned⟩
  · intro m e he
    rcases update_eq_some he with ⟨rfl, _⟩ | ⟨_, he⟩
    · omega
    · exact (h.slot_lt m e he).trans (by omega)
  · intro m q slot' hq hphase
    obtain ⟨e, he, hrest⟩ := h.owned m q slot' hq hphase
    have hne : slot' ≠ slots := (h.slot_lt slot' e he).ne
    exact ⟨e, by rw [update_of_ne hne]; exact he, hrest⟩

/-- More invalidations have returned. -/
theorem Asked.settle (h : Asked reads downloads settled slots) {settled' : ℕ → ℕ}
    (hle : ∀ ino, settled ino ≤ settled' ino) : Asked reads downloads settled' slots where
  since_le n r hr := (h.since_le n r hr).trans (hle _)
  slot_lt := h.slot_lt
  owned := h.owned
  returned := h.returned

end Asked

/-- The invariant of a fenced run. -/
structure Fresh (s : System) : Prop where
  ages : Ages s.cache.blocks s.invalidations s.begun s.settled
  asked : Asked s.reads s.downloads s.settled s.cache.slots

theorem fresh_initial : Fresh .initial where
  ages := by
    constructor <;> simp [System.initial, ReadCache.new]
  asked := by
    constructor <;> simp [System.initial, ReadCache.new]

theorem Fresh.coherent {s : System} (h : Fresh s) : Coherent s := h.asked.returned

section Steps

variable {s t : System} {e : Event}

theorem startDownload_slots (s : System) {key : BlockKey} (h : s.cache.inFlight key = none) :
    (s.startDownload key).cache.slots = s.cache.slots + 1 := by
  simp [System.startDownload, System.setDownload, ReadCache.claimInflight, h]

theorem startDownload_blocks (s : System) (key : BlockKey) :
    (s.startDownload key).cache.blocks = s.cache.blocks := by
  simp only [System.startDownload, System.setDownload, ReadCache.claimInflight]
  split <;> rfl

theorem Fresh.startDownload (h : Fresh s) {key : BlockKey} (hclaim : s.cache.inFlight key = none) :
    Fresh (s.startDownload key) where
  ages := by
    rw [startDownload_blocks]
    exact h.ages
  asked := by
    rw [startDownload_slots s hclaim]
    exact h.asked.startDownload _

/-- What a step leaves of the claim an invalidation takes away. -/
theorem Fresh.cancelDownload (h : Fresh s) (slot : Option ℕ) : Fresh (s.cancelDownload slot) := by
  rcases slot with _ | slot
  · exact h
  · unfold System.cancelDownload
    split
    · next heq => cases heq
    · next slot' heq =>
        split
        · exact h
        · next d hd =>
            exact ⟨h.ages, h.asked.moveDownload hd rfl fun hunder => Or.inl ⟨hunder, rfl⟩⟩

/-- **A fenced step keeps the cache fresh.** -/
theorem Fresh.step (h : Fresh s) (hfenced : Fenced s e) (hstep : Step s e t) : Fresh t := by
  obtain ⟨ages, asked⟩ := h
  cases hstep with
  | @ask n key hnew => exact ⟨ages, asked.ask key⟩
  | hit hr hphase hget =>
      -- The read is answered from the cache, which holds nothing older than what has returned.
      refine ⟨ages, asked.moveRead hr (by simp) ?_⟩
      rintro block heq
      cases heq
      exact (asked.since_le _ _ hr).trans (ages.cached _ _ _ hget)
  | wokenHit hr hphase hget =>
      refine ⟨ages, asked.moveRead hr (by simp) ?_⟩
      rintro block heq
      cases heq
      exact (asked.since_le _ _ hr).trans (ages.cached _ _ _ hget)
  | answer hr hphase hd hdone =>
      refine ⟨ages, asked.moveRead hr (by simp) ?_⟩
      rintro block heq
      cases heq
      obtain ⟨d, hd', _, hsince⟩ := asked.owned _ _ _ hr hphase
      obtain rfl := Option.some.inj (hd.symm.trans hd')
      exact hsince (by rw [hdone]; rfl)
  | win hr hphase hclaim =>
      have hstarted := Fresh.startDownload ⟨ages, asked⟩ hclaim
      refine ⟨hstarted.ages, hstarted.asked.moveRead hr ?_ (by simp)⟩
      rintro slot heq
      cases heq
      exact ⟨_, update_self .., rfl, by simp [Phase.underway]⟩
  | miss hr _ _ | lose hr _ _ | answerError hr _ _ _ | look hr _ _ | lookNone hr _ _
  | wake hr _ _ | timeOut hr _ | wokenMiss hr _ _ =>
      exact ⟨ages, asked.moveRead hr (by simp) (by simp)⟩
  | prefetch hclaim => exact Fresh.startDownload ⟨ages, asked⟩ hclaim
  | begin hd hphase =>
      exact ⟨ages, asked.moveDownload hd rfl fun _ => Or.inr (ages.settled_le _)⟩
  | fetch hd hphase =>
      exact ⟨ages, asked.moveDownload hd rfl fun _ => Or.inl ⟨by rw [hphase]; rfl, rfl⟩⟩
  | fail hd hphase => exact ⟨ages, asked.moveDownload hd rfl (by simp [Phase.underway])⟩
  | put hd hphase =>
      exact ⟨ages.put (hfenced _ hd),
        asked.moveDownload hd rfl fun _ => Or.inl ⟨by rw [hphase]; rfl, rfl⟩⟩
  | list hd hphase | unclaim hd hphase =>
      exact ⟨ages, asked.moveDownload hd rfl fun _ => Or.inl ⟨by rw [hphase]; rfl, rfl⟩⟩
  | cancel hd hphase => exact ⟨ages, asked.moveDownload hd rfl (by simp [Phase.underway])⟩
  | @ring slot d ok taken hd hphase =>
      obtain ⟨resolved, hring⟩ := s.cache.ring_eq taken
      rw [hring]
      refine ⟨ages, asked.moveDownload hd rfl fun hunder => Or.inl ⟨?_, rfl⟩⟩
      rw [hphase]
      cases ok with
      | true => rfl
      | false => simp [Phase.underway] at hunder
  | evict => exact ⟨ages.evict _, asked⟩
  | unlist => exact ⟨ages, asked⟩
  | take hnew htaken =>
      exact ⟨ages.take hnew fun idx block hblock => (htaken idx).mpr (hfenced idx block hblock),
        asked⟩
  | @invalidateEvict n v idx ops hv hops =>
      refine ⟨(ages.evict (v.ino, idx)).advance hv ?_, asked⟩
      intro idx' block hblock hmem
      rw [hops] at hmem
      rcases List.mem_cons.mp hmem with heq | hmem
      · cases heq
        simp at hblock
      · exact hmem
  | @invalidateUnclaim n v idx ops hv hops =>
      have hcancelled := Fresh.cancelDownload
        (s := { s with cache := (s.cache.unclaim (v.ino, idx)).2 }) ⟨ages, asked⟩
        (s.cache.unclaim (v.ino, idx)).1
      obtain ⟨downloads, heq⟩ := System.cancelDownload_eq
        { s with cache := (s.cache.unclaim (v.ino, idx)).2 } (s.cache.unclaim (v.ino, idx)).1
      rw [heq] at hcancelled ⊢
      refine ⟨ages.advance hv ?_, hcancelled.asked⟩
      intro idx' block _ hmem
      simpa [hops] using hmem
  | @invalidateRing n v slot ops hv hops =>
      obtain ⟨resolved, hring⟩ := s.cache.ring_eq slot
      rw [hring]
      refine ⟨ages.advance hv ?_, asked⟩
      intro idx' block _ hmem
      simpa [hops] using hmem
  | invalidateCollect hv hops hclaimed =>
      refine ⟨ages.advance hv ?_, asked⟩
      intro idx' block _ hmem
      simpa [hops] using hmem
  | @settle n v hv hops =>
      refine ⟨ages.settle hv hops, asked.settle fun i => ?_⟩
      show s.settled i ≤ update s.settled v.ino (max (s.settled v.ino) v.number) i
      rcases eq_or_ne i v.ino with rfl | hne
      · rw [update_self]
        exact le_max_left _ _
      · rw [update_of_ne hne]

end Steps

/-! ### Two runs -/

end SynologyFilestation.Fuse
