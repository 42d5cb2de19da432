import Mathlib.Data.List.Basic

/-!
A buffer that is handed over in pieces to a sink that may refuse.

Pieces are taken from the front, each as long as it may be, until nothing is left
or a piece is refused; a refused piece stays in the buffer. What one piece keeps
the whole drain keeps, and sinks that answer alike leave the same buffer behind.
-/

namespace SynologyFilestation.Library

variable {α σ τ : Type*}

def drainUpTo (limit : ℕ) (send : σ → List α → Bool × σ) : ℕ → List α → σ → List α × σ
  | 0, pending, s => (pending, s)
  | n + 1, pending, s =>
      if pending.isEmpty then (pending, s)
      else
        let (sent, t) := send s (pending.take limit)
        if sent then drainUpTo limit send n (pending.drop limit) t else (pending, t)

/-- Every piece is at least one long, so that there are no more than the buffer is long. -/
def drain (limit : ℕ) (send : σ → List α → Bool × σ) (pending : List α) (s : σ) : List α × σ :=
  drainUpTo limit send pending.length pending s

variable {limit : ℕ} {send : σ → List α → Bool × σ} {send' : τ → List α → Bool × τ}
  {pending : List α}

theorem drainUpTo_eq_drain (hlimit : 0 < limit) {n : ℕ} (hn : pending.length ≤ n) (s : σ) :
    drainUpTo limit send n pending s = drain limit send pending s := by
  have hsame : ∀ n m pending s, pending.length ≤ n → pending.length ≤ m →
      drainUpTo limit send n pending s = drainUpTo limit send m pending s := by
    intro n
    induction n with
    | zero =>
        intro m pending s hn _
        obtain rfl := List.length_eq_zero_iff.mp (Nat.le_zero.mp hn)
        cases m <;> rfl
    | succ n ih =>
        intro m pending s hn hm
        cases m with
        | zero =>
            obtain rfl := List.length_eq_zero_iff.mp (Nat.le_zero.mp hm)
            rfl
        | succ m =>
            have hshort : ∀ k, pending.length ≤ k + 1 → (pending.drop limit).length ≤ k := by
              intro k hk
              rw [List.length_drop]
              omega
            rw [drainUpTo, drainUpTo]
            split
            · rfl
            · dsimp only
              rw [ih m _ _ (hshort n hn) (hshort m hm)]
  exact hsame _ _ _ _ hn (Nat.le_refl _)

/-- What handing over one piece keeps, and a refusal keeps. -/
theorem drain_invariant {P : List α → σ → Prop} {s : σ} (h : P pending s)
    (hsent : ∀ pending s t, P pending s → pending ≠ [] →
      send s (pending.take limit) = (true, t) → P (pending.drop limit) t)
    (hrefused : ∀ pending s t, P pending s → send s (pending.take limit) = (false, t) →
      P pending t) :
    P (drain limit send pending s).1 (drain limit send pending s).2 := by
  have hrun : ∀ n pending s, P pending s →
      P (drainUpTo limit send n pending s).1 (drainUpTo limit send n pending s).2 := by
    intro n
    induction n with
    | zero => exact fun _ _ h => h
    | succ n ih =>
        intro pending s h
        rw [drainUpTo]
        split
        case isTrue => exact h
        case isFalse hne =>
          rcases hsend : send s (pending.take limit) with ⟨_ | _, t⟩
          · exact hrefused _ _ _ h hsend
          · exact ih _ _ (hsent _ _ _ h (mt List.isEmpty_iff.mpr hne) hsend)
  exact hrun _ _ _ h

/-- Sinks that answer alike. -/
theorem drain_simulates {R : σ → τ → Prop}
    (hsend : ∀ s t piece, R s t →
      (send s piece).1 = (send' t piece).1 ∧ R (send s piece).2 (send' t piece).2)
    {s : σ} {t : τ} (h : R s t) :
    (drain limit send pending s).1 = (drain limit send' pending t).1 ∧
      R (drain limit send pending s).2 (drain limit send' pending t).2 := by
  have hrun : ∀ n pending s t, R s t →
      (drainUpTo limit send n pending s).1 = (drainUpTo limit send' n pending t).1 ∧
        R (drainUpTo limit send n pending s).2 (drainUpTo limit send' n pending t).2 := by
    intro n
    induction n with
    | zero => exact fun _ _ _ h => ⟨rfl, h⟩
    | succ n ih =>
        intro pending s t h
        obtain ⟨hanswer, hrel⟩ := hsend s t (pending.take limit) h
        rw [drainUpTo, drainUpTo]
        split
        case isTrue => exact ⟨rfl, h⟩
        case isFalse =>
          dsimp only
          rw [hanswer]
          split
          case isTrue => exact ih _ _ _ hrel
          case isFalse => exact ⟨rfl, hrel⟩
  exact hrun _ _ _ _ h

/-- The sink, and what it was handed. -/
def recording (send : σ → List α → Bool × σ) (s : σ × List (List α)) (piece : List α) :
    Bool × σ × List (List α) :=
  let (sent, t) := send s.1 piece
  (sent, t, s.2 ++ [piece])

/-- The pieces that are handed over, a refused one with them. -/
def pieces (limit : ℕ) (send : σ → List α → Bool × σ) (pending : List α) (s : σ) :
    List (List α) := (drain limit (recording send) pending (s, [])).2.2

theorem length_pieces {s : σ} {piece : List α} (h : piece ∈ pieces limit send pending s) :
    piece.length ≤ limit := by
  have hrecord : ∀ (pending : List α) (s t : σ × List (List α)) (sent : Bool),
      (∀ piece ∈ s.2, piece.length ≤ limit) →
        recording send s (pending.take limit) = (sent, t) →
          ∀ piece ∈ t.2, piece.length ≤ limit := by
    rintro pending s t sent hs hsend piece hpiece
    obtain ⟨-, rfl⟩ := Prod.mk.inj hsend
    rcases List.mem_append.mp hpiece with hold | hnew
    · exact hs piece hold
    · obtain rfl := List.mem_singleton.mp hnew
      exact List.length_take_le ..
  have hall : ∀ piece ∈ pieces limit send pending s, piece.length ≤ limit :=
    drain_invariant (P := fun _ t => ∀ piece ∈ t.2, piece.length ≤ limit) (s := (s, [])) nofun
      (fun pending s t hs _ => hrecord pending s t true hs)
      (fun pending s t hs => hrecord pending s t false hs)
  exact hall piece h

/-- A drain stops when nothing is left or a piece is refused. -/
theorem drain_stops (hlimit : 0 < limit) (pending : List α) (s : σ) :
    (drain limit send pending s).1 = [] ∨
      ∃ t piece, send t piece = (false, (drain limit send pending s).2) := by
  have hrun : ∀ n pending s, pending.length ≤ n → (drainUpTo limit send n pending s).1 = [] ∨
      ∃ t piece, send t piece = (false, (drainUpTo limit send n pending s).2) := by
    intro n
    induction n with
    | zero => exact fun _ _ hn => .inl (List.length_eq_zero_iff.mp (Nat.le_zero.mp hn))
    | succ n ih =>
        intro pending s hn
        rw [drainUpTo]
        split
        case isTrue hnil => exact .inl (List.isEmpty_iff.mp hnil)
        case isFalse =>
          rcases hsend : send s (pending.take limit) with ⟨_ | _, t⟩
          · exact .inr ⟨s, _, hsend⟩
          · refine ih _ _ ?_
            rw [List.length_drop]
            omega
  exact hrun _ _ _ (Nat.le_refl _)

/-- A sink that refuses every piece is left alone. -/
theorem drain_refused {s : σ} (h : ∀ piece, send s piece = (false, s)) (pending : List α) :
    drain limit send pending s = (pending, s) := by
  rw [drain]
  cases pending.length with
  | zero => rfl
  | succ n =>
      rw [drainUpTo]
      split
      · rfl
      · rw [h]
        rfl

end SynologyFilestation.Library
