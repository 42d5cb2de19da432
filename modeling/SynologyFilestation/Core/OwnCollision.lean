import SynologyFilestation.Core.SliceCollisions

/-!
`AlreadyExists` from an upload that may not overwrite.

Such an upload is tried again, and handed from one backend to the next, as any
other, and each time the name must be free. An attempt that landed unheard, or a
stream that broke off and whose short file was not removed, is then found by the
next attempt and reported as somebody else's. A replacing upload clears the name
before each attempt for this reason; here nothing does. So the contract can be
relied on only where nothing can be made under the name, or one attempt is all
there is.

Nobody else is at work under the name in this model: what stands there was there
before the call, or is the call's own.
-/

namespace SynologyFilestation.Core

open Library

variable {fold : String → String} {limits : TransferLimits} {folder : NasPath}
  {filename : String} {content : Bytes}

/-- What an upload that may not overwrite owes: a collision is with what stood
under the name before the call, and a failure leaves no short file of its own. -/
structure CreateContract (fold : String → String) (path : NasPath) (content : Bytes)
    (before : Volume) (result : Except SynoFsError Unit) (after : Volume) : Prop where
  foreign : ∀ e, result = .error e → e.category = .alreadyExists → before.treeAt fold path ≠ none
  whole : ∀ e held, result = .error e → after.treeAt fold path = some (.file held) →
    before.treeAt fold path ≠ some (.file held) → content.length ≤ held.length

theorem CreateContract.of_ok {path : NasPath} {before after : Volume} :
    CreateContract fold path content before (.ok ()) after :=
  ⟨nofun, nofun⟩

/-- Only what stood under the name matters. -/
theorem CreateContract.congr {path : NasPath} {before before' after : Volume}
    {result : Except SynoFsError Unit}
    (h : CreateContract fold path content before result after)
    (htree : before.treeAt fold path = before'.treeAt fold path) :
    CreateContract fold path content before' result after := by
  refine ⟨fun e he hcollision => ?_, fun e held he hleft hnew => ?_⟩
  · rw [← htree]
    exact h.foreign e he hcollision
  · rw [← htree] at hnew
    exact h.whole e held he hleft hnew

/-- A failure that left the name as it was. -/
theorem CreateContract.of_kept {path : NasPath} {before after : Volume} {e : SynoFsError}
    (hkept : after.treeAt fold path = before.treeAt fold path)
    (hforeign : e.category = .alreadyExists → before.treeAt fold path ≠ none) :
    CreateContract fold path content before (.error e) after := by
  refine ⟨fun e' he => ?_, fun e' held _ hleft hnew => ?_⟩
  · obtain rfl := Except.error.inj he
    exact hforeign
  · rw [← hkept] at hnew
    exact absurd hleft hnew

/-! ### One piece over HTTP -/

/-- The server speaks of a collision only where it met one. -/
def HttpFate.Founded : HttpFate → Prop
  | .refused code => dsmCodeToCategory code ≠ .alreadyExists
  | _ => True

/-- An attempt lands with its answer lost, and a later one is answered. -/
def Relands (http : ℕ → AttemptScript) (attempts : ℕ) : Prop :=
  ∃ i j, i < j ∧ j < attempts ∧ (∃ message, (http i).post = .lost true message) ∧
    (http j).post = .answered ∧ ∀ k < j, ∃ ran message, (http k).post = .lost ran message

/-- What a stored file leaves to a second attempt. -/
theorem Volume.store_store (v : Volume) (data : Bytes) :
    ((v.store fold (joinPath folder filename) data).2.store fold (joinPath folder filename)
      data).2 = (v.store fold (joinPath folder filename) data).2 := by
  by_cases hadmits : v.Admits fold folder filename
  · have hstored := (Volume.store_ok (Volume.store_of_admits data hadmits)).2.1
    rw [Volume.store_of_taken data (by rw [hstored]; exact Option.some_ne_none _)]
  · obtain ⟨e, hstore, _⟩ := Volume.store_of_not_admits data hadmits
    rw [hstore, hstore]

/-- **Attempts without an answer.** They leave the server with the file stored, if
one of them landed, and as it was otherwise. -/
theorem httpUploadFrom_lost (fold : String → String) (folder : NasPath) (filename : String)
    (content : Bytes) {sc : ℕ → AttemptScript} (lost left : ℕ) {attempt : ℕ}
    {lastErr : SynoFsError} (c : Client Volume) (hlast : lastErr.category = .transport)
    (hlost : ∀ k < lost, ∃ ran message, (sc (attempt + k)).post = .lost ran message) :
    ∃ e c', httpUploadFrom fold sc folder filename content false lastErr attempt (lost + left) c =
        httpUploadFrom fold sc folder filename content false e (attempt + lost) left c' ∧
      e.category = .transport ∧
      ((c'.server = c.server ∧ ∀ k < lost, ∀ message,
          (sc (attempt + k)).post ≠ .lost true message) ∨
        (c'.server = (c.server.store fold (joinPath folder filename) content).2 ∧
          ∃ k < lost, ∃ message, (sc (attempt + k)).post = .lost true message)) := by
  induction lost generalizing left with
  | zero =>
      rw [Nat.zero_add]
      exact ⟨lastErr, c, rfl, hlast, Or.inl ⟨rfl, fun k hk => absurd hk (Nat.not_lt_zero k)⟩⟩
  | succ lost ih =>
      obtain ⟨e, c', hrun, _, hserver⟩ := ih (left + 1)
        fun k hk => hlost k (Nat.lt_succ_of_lt hk)
      obtain ⟨ran, message, hpost⟩ := hlost lost (Nat.lt_succ_self lost)
      have hleft : lost + 1 + left = lost + (left + 1) := by omega
      rw [hleft, hrun, httpUploadFrom]
      simp only [Bool.false_eq_true, if_false, hpost]
      cases ran with
      | false =>
          refine ⟨.io message, c', rfl, rfl, hserver.imp ?_ ?_⟩
          · rintro ⟨hsame, hnone⟩
            refine ⟨hsame, fun k hk message' hran => ?_⟩
            rcases Nat.lt_succ_iff_lt_or_eq.mp hk with hk | rfl
            · exact hnone k hk message' hran
            · rw [hpost] at hran
              cases hran
          · rintro ⟨hstored, k, hk, hran⟩
            exact ⟨hstored, k, Nat.lt_succ_of_lt hk, hran⟩
      | true =>
          refine ⟨.io message, { c' with server := (c'.server.store fold
            (joinPath folder filename) content).2 }, rfl, rfl, Or.inr ⟨?_, lost,
              Nat.lt_succ_self lost, message, hpost⟩⟩
          rcases hserver with ⟨hsame, _⟩ | ⟨hstored, _⟩
          · rw [hsame]
          · rw [hstored, Volume.store_store]

/-- What an attempt leaves that is stored or not. -/
theorem OldOrNew.contract {path : NasPath} {before after : Volume} {e : SynoFsError}
    (hleft : OldOrNew fold path (before.treeAt fold path) content after)
    (hforeign : e.category = .alreadyExists → before.treeAt fold path ≠ none) :
    CreateContract fold path content before (.error e) after := by
  refine ⟨fun e' he => ?_, fun e' held _ htree hnew => ?_⟩
  · obtain rfl := Except.error.inj he
    exact hforeign
  · rcases hleft with hold | hfile
    · exact absurd (hold.symm.trans htree) hnew
    · rw [htree] at hfile
      rw [FileTree.file.inj (Option.some.inj hfile)]

theorem oldOrNew_store (v : Volume) : OldOrNew fold (joinPath folder filename)
    (v.treeAt fold (joinPath folder filename)) content
    (v.store fold (joinPath folder filename) content).2 := by
  cases hstore : (v.store fold (joinPath folder filename) content).1 with
  | ok u => exact Or.inr (Volume.store_ok hstore).2.1
  | error e => exact Or.inl (by rw [Volume.store_error hstore])

theorem store_contract (v : Volume) : CreateContract fold (joinPath folder filename) content v
    (v.store fold (joinPath folder filename) content).1
    (v.store fold (joinPath folder filename) content).2 := by
  cases hstore : (v.store fold (joinPath folder filename) content).1 with
  | ok u => exact .of_ok
  | error e =>
      rw [Volume.store_error hstore]
      exact .of_kept rfl (Volume.store_collision hstore)

/-- A file that is stored a second time collides with the first. -/
theorem not_contract_of_stored {v after : Volume} (hadmits : v.Admits fold folder filename) :
    ¬ CreateContract fold (joinPath folder filename) content v
      ((v.store fold (joinPath folder filename) content).2.store fold (joinPath folder filename)
        content).1 after := by
  intro h
  have hstored := (Volume.store_ok (Volume.store_of_admits content hadmits)).2.1
  have hcollides := Volume.store_of_taken content (by rw [hstored]; exact Option.some_ne_none _)
  exact h.foreign _ (congrArg Prod.fst hcollides) rfl hadmits.1

/-- How a run of attempts goes on after those without an answer. -/
theorem exists_lost (http : ℕ → AttemptScript) (attempts : ℕ) :
    ∃ lost ≤ attempts, (∀ k < lost, ∃ ran message, (http k).post = .lost ran message) ∧
      (lost < attempts → ∀ ran message, (http lost).post ≠ .lost ran message) := by
  induction attempts with
  | zero => exact ⟨0, le_rfl, fun k hk => absurd hk (Nat.not_lt_zero k), nofun⟩
  | succ attempts ih =>
      obtain ⟨lost, hle, hlost, hend⟩ := ih
      rcases Nat.lt_or_eq_of_le hle with hlt | rfl
      · exact ⟨lost, Nat.le_succ_of_le hle, hlost, fun _ => hend hlt⟩
      · by_cases hnext : ∃ ran message, (http lost).post = .lost ran message
        · refine ⟨lost + 1, le_rfl, fun k hk => ?_, fun h => absurd h (lt_irrefl _)⟩
          rcases Nat.lt_succ_iff_lt_or_eq.mp hk with hk | rfl
          · exact hlost k hk
          · exact hnext
        · exact ⟨lost, Nat.le_succ _, hlost, fun _ ran message h => hnext ⟨ran, message, h⟩⟩

/-- Whether an upload lands again is told by the first attempt with an answer. -/
theorem relands_iff {http : ℕ → AttemptScript} {lost attempts : ℕ} (hle : lost ≤ attempts)
    (hlost : ∀ k < lost, ∃ ran message, (http k).post = .lost ran message)
    (hend : lost < attempts → ∀ ran message, (http lost).post ≠ .lost ran message) :
    Relands http attempts ↔ lost < attempts ∧ (http lost).post = .answered ∧
      ∃ k < lost, ∃ message, (http k).post = .lost true message := by
  constructor
  · rintro ⟨i, j, hij, hj, hran, hanswered, hbefore⟩
    rcases Nat.lt_trichotomy j lost with hlt | rfl | hgt
    · obtain ⟨ran, message, hpost⟩ := hlost j hlt
      rw [hanswered] at hpost
      cases hpost
    · exact ⟨hj, hanswered, i, hij, hran⟩
    · obtain ⟨ran, message, hpost⟩ := hbefore lost hgt
      exact absurd hpost (hend (by omega) ran message)
  · rintro ⟨hlt, hanswered, i, hi, hran⟩
    exact ⟨i, lost, hi, hlt, hran, hanswered, hlost⟩

/-- **One piece over HTTP.** The contract holds unless the file lands unheard and
a later attempt is answered. -/
theorem httpUpload_contract {sc : ℕ → AttemptScript} (hfounded : ∀ i, (sc i).post.Founded)
    (c : Client Volume) :
    let r := httpUpload fold limits sc folder filename content false c
    CreateContract fold (joinPath folder filename) content c.server r.1 r.2.server ↔
      ¬ c.server.Admits fold folder filename ∨ ¬ Relands sc limits.maxAttempts := by
  obtain ⟨lost, hle, hlost, hend⟩ := exists_lost sc limits.maxAttempts
  obtain ⟨left, hleft⟩ := Nat.exists_eq_add_of_le hle
  have hlost' : ∀ k < lost, ∃ ran message, (sc (0 + k)).post = .lost ran message := by
    simpa only [Nat.zero_add] using hlost
  have hnone : (SynoFsError.io "no attempts").category = .transport := rfl
  obtain ⟨e, c', hrun, he, hserver⟩ :=
    httpUploadFrom_lost fold folder filename content lost left c hnone hlost'
  simp only [Nat.zero_add] at hrun hserver
  have hr : httpUpload fold limits sc folder filename content false c =
      httpUploadFrom fold sc folder filename content false e lost left c' := by
    rw [← hrun, ← hleft]
    rfl
  have hold : OldOrNew fold (joinPath folder filename)
      (c.server.treeAt fold (joinPath folder filename)) content c'.server := by
    rcases hserver with ⟨hsame, _⟩ | ⟨hstored, _⟩
    · exact Or.inl (by rw [hsame])
    · rw [hstored]
      exact oldOrNew_store c.server
  have hagain : OldOrNew fold (joinPath folder filename)
      (c.server.treeAt fold (joinPath folder filename)) content
      (c'.server.store fold (joinPath folder filename) content).2 := by
    rcases hserver with ⟨hsame, _⟩ | ⟨hstored, _⟩
    · rw [hsame]
      exact oldOrNew_store c.server
    · rw [hstored, Volume.store_store]
      exact oldOrNew_store c.server
  rw [relands_iff hle hlost hend, hr]
  cases left with
  | zero =>
      rw [httpUploadFrom]
      exact iff_of_true (hold.contract (by rw [he]; rintro ⟨⟩)) (Or.inr fun h => by omega)
  | succ left =>
      have hlt : lost < limits.maxAttempts := by omega
      rw [httpUploadFrom]
      simp only [Bool.false_eq_true, if_false]
      cases hpost : (sc lost).post with
      | lost ran message => exact absurd hpost (hend hlt ran message)
      | refused code =>
          have hcode := hfounded lost
          rw [hpost] at hcode
          refine iff_of_true (hold.contract fun h => absurd h hcode) (Or.inr fun h => ?_)
          cases h.2.1
      | garbled ran message =>
          refine iff_of_true ?_ (Or.inr fun h => ?_)
          · cases ran with
            | false => exact hold.contract (by rintro ⟨⟩)
            | true => exact hagain.contract (by rintro ⟨⟩)
          · cases h.2.1
      | answered =>
          dsimp only
          rcases hserver with ⟨hsame, hunlanded⟩ | ⟨hstored, i, hi, hran⟩
          · rw [hsame]
            refine iff_of_true (store_contract c.server) (Or.inr ?_)
            rintro ⟨_, _, i, hi, message, hran⟩
            exact hunlanded i hi message hran
          · by_cases hadmits : c.server.Admits fold folder filename
            · rw [hstored]
              refine iff_of_false (not_contract_of_stored hadmits) ?_
              rintro (h | h)
              · exact h hadmits
              · exact h ⟨hlt, rfl, i, hi, hran⟩
            · obtain ⟨e', hstore, _⟩ := Volume.store_of_not_admits content hadmits
              rw [hstored, hstore]
              exact iff_of_true (store_contract c.server) (Or.inl hadmits)

/-! ### From a local file -/

structure FromPathScript.Founded (sc : FromPathScript) : Prop where
  stream : ∀ i, (sc.stream i).create.Founded
  slices : sc.slices.Founded
  http : ∀ i, (sc.http i).post.Founded

/-- No attempt of the way over HTTP lands unheard with the upload still going on. -/
structure FromPathScript.HttpTidy (sc : FromPathScript) (limits : TransferLimits)
    (content : Bytes) : Prop where
  slices : limits.sliceSize < content.length → sc.slices.Tidy (limits.slices content.length)
  http : content.length ≤ limits.sliceSize → ¬ Relands sc.http limits.maxAttempts

theorem not_relands_once (http : ℕ → AttemptScript) : ¬ Relands http 1 := by
  rintro ⟨i, j, hij, hj, _⟩
  omega

theorem uploadFromPathHttp_contract {D : Type} [DecidableEq D] [ToString D] {md5 : Bytes → D}
    {sc : FromPathScript} (hfounded : sc.Founded) (s : SliceSession)
    (hcond : ¬ s.client.server.Admits fold folder filename ∨ sc.HttpTidy limits content ∨
      limits.maxAttempts = 1) :
    let r := uploadFromPathHttp fold limits md5 sc content folder filename false s
    CreateContract fold (joinPath folder filename) content s.client.server r.1
      r.2.client.server := by
  rw [uploadFromPathHttp]
  cases sc.stat with
  | some why => exact .of_kept rfl nofun
  | none =>
      dsimp only
      split
      case isTrue hlong =>
        have hstay := hcond.imp_right (Or.imp (fun htidy => htidy.slices hlong) Nat.le_of_eq)
        refine ⟨fun e he hcollision hfree => ?_, fun e held _ hleft hnew => ?_⟩
        · exact httpSliceUpload_free hfounded.slices hfree hstay he hcollision
        · exact httpSliceUpload_whole hleft hnew
      case isFalse hshort =>
        cases sc.read with
        | some why => exact .of_kept rfl nofun
        | none =>
            refine (httpUpload_contract hfounded.http s.client).mpr (hcond.imp_right ?_)
            rintro (htidy | hone)
            · exact htidy.http (Nat.le_of_not_lt hshort)
            · rw [hone]
              exact not_relands_once sc.http

/-- The backends leave nothing of their own: each is tidy, or none may be asked,
or there is no folder to make a file in. -/
def Untouched (fold : String → String) (folder : NasPath) (sc : FromPathScript)
    (s : StreamSession) : Prop :=
  (∀ i, (sc.stream i).create.Tidy) ∨ (∀ b ∈ s.streamBreakers, b.mayAsk = false) ∨
    s.client.server.root.dirAt fold (trimEnd folder) = none

theorem Volume.nowhere_of_not_admits {v : Volume} (h : ¬ v.Admits fold folder filename) :
    v.treeAt fold (joinPath folder filename) ≠ none ∨
      v.root.dirAt fold (trimEnd folder) = none := by
  by_contra hnot
  obtain ⟨hfree, hdir⟩ := not_or.mp hnot
  obtain ⟨children, hchildren⟩ := Option.ne_none_iff_exists'.mp hdir
  refine h ⟨not_ne_iff.mp hfree, ?_⟩
  rw [FileTree.dirAt_ensureDir_of_some fold hchildren]
  rfl

/-- What the backends come to when they leave the name alone. -/
theorem viaStreams_contract (content : Bytes) {sc : FromPathScript} (hfounded : sc.Founded)
    (s : StreamSession)
    (hcond : ¬ s.client.server.Admits fold folder filename ∨ Untouched fold folder sc s) :
    let r := viaStreams fold (joinPath folder filename) content false sc.stream s.streamBreakers
      s.client.server
    (r.1 = none → r.2.2.treeAt fold (joinPath folder filename) =
        s.client.server.treeAt fold (joinPath folder filename) ∧
      (¬ s.client.server.Admits fold folder filename → r.2.2 = s.client.server)) ∧
      ∀ answer, r.1 = some answer → CreateContract fold (joinPath folder filename) content
        s.client.server answer r.2.2 := by
  intro r
  -- An answer that is a failure is one of a backend that left the name as it was.
  have hanswer : ∀ P : Volume → Prop, (∀ w, P w → w.treeAt fold (joinPath folder filename) =
      s.client.server.treeAt fold (joinPath folder filename)) →
      (∀ e, r.1 = some (.error e) → P r.2.2 ∧ (e.category = .alreadyExists →
        s.client.server.treeAt fold (joinPath folder filename) ≠ none)) →
      ∀ answer, r.1 = some answer → CreateContract fold (joinPath folder filename) content
        s.client.server answer r.2.2 := by
    intro P htree hrule answer hsome
    cases answer with
    | ok u => exact .of_ok
    | error e =>
        obtain ⟨hkept, hforeign⟩ := hrule e hsome
        exact .of_kept (htree _ hkept) hforeign
  by_cases hnowhere : s.client.server.treeAt fold (joinPath folder filename) ≠ none ∨
      s.client.server.root.dirAt fold (trimEnd folder) = none
  · have hfail : ∀ i w e, w = s.client.server →
        (writeNewFromPath fold (joinPath folder filename) content (sc.stream i).create w).1 =
          .error e →
        (writeNewFromPath fold (joinPath folder filename) content (sc.stream i).create w).2 =
          s.client.server := by
      rintro i w e rfl _
      exact writeNew_nowhere _ hnowhere
    have hrule := viaStreams_rule (· = s.client.server) s.streamBreakers hfounded.stream
      (fun w hw => by rw [hw]) hfail rfl
    refine ⟨fun hnone => ?_, hanswer (· = s.client.server) (fun w hw => by rw [hw]) hrule.2⟩
    have hsame := hrule.1 hnone
    exact ⟨by rw [hsame], fun _ => hsame⟩
  · have hadmits := not_not.mp (mt Volume.nowhere_of_not_admits hnowhere)
    rcases hcond with hblocked | htidy | hunasked | hdir
    · exact absurd hadmits hblocked
    · have hfail : ∀ i w e, w.treeAt fold (joinPath folder filename) =
            s.client.server.treeAt fold (joinPath folder filename) →
          (writeNewFromPath fold (joinPath folder filename) content (sc.stream i).create w).1 =
            .error e →
          (writeNewFromPath fold (joinPath folder filename) content
            (sc.stream i).create w).2.treeAt fold (joinPath folder filename) =
              s.client.server.treeAt fold (joinPath folder filename) :=
        fun i w e hw he => (writeNew_tidy (htidy i) he).trans hw
      have hrule := viaStreams_rule (fun w => w.treeAt fold (joinPath folder filename) =
          s.client.server.treeAt fold (joinPath folder filename)) s.streamBreakers
        hfounded.stream (fun w hw => hw) hfail rfl
      refine ⟨fun hnone => ?_, hanswer _ (fun w hw => hw) hrule.2⟩
      exact ⟨hrule.1 hnone, fun h => absurd hadmits h⟩
    · obtain ⟨breakers, hstreams⟩ := viaStreams_unasked fold folder filename content sc.stream
        s.client.server hunasked
      simp only [r, hstreams]
      exact ⟨fun _ => ⟨trivial, fun _ => trivial⟩, nofun⟩
    · exact absurd (Or.inr hdir) hnowhere

/-- **A sequence that keeps the contract.** Nothing can be made under the name, or
the backends leave nothing of their own and no attempt over HTTP lands unheard. -/
theorem uploadFromPath_contract {D : Type} [DecidableEq D] [ToString D] {md5 : Bytes → D}
    {sc : FromPathScript} (hfounded : sc.Founded) (s : StreamSession)
    (hcond : ¬ s.client.server.Admits fold folder filename ∨ Untouched fold folder sc s ∧
      (sc.HttpTidy limits content ∨ limits.maxAttempts = 1)) :
    let r := uploadFromPath fold limits md5 sc content folder filename false s
    CreateContract fold (joinPath folder filename) content s.client.server r.1
      r.2.client.server := by
  have hstreams := viaStreams_contract content hfounded s (hcond.imp_right And.left)
  rw [uploadFromPath]
  dsimp only at hstreams ⊢
  revert hstreams
  cases viaStreams fold (joinPath folder filename) content false sc.stream s.streamBreakers
    s.client.server with
  | mk answer rest =>
      obtain ⟨breakers, v⟩ := rest
      rintro ⟨hpassed, hanswered⟩
      cases answer with
      | some r => exact hanswered r rfl
      | none =>
          obtain ⟨htree, hsame⟩ := hpassed rfl
          refine CreateContract.congr (uploadFromPathHttp_contract hfounded _ ?_) htree
          refine hcond.imp (fun hblocked => ?_) And.right
          rw [← hsame hblocked] at hblocked
          exact hblocked

/-! ### The sequences that break it -/

/-- No backend takes the call. Over HTTP the file lands, its answer is lost, and
the upload goes on. -/
def relanding (limits : TransferLimits) (content : Bytes) : FromPathScript :=
  { stream := fun _ => ⟨⟨0, 0, .refused .notSupported⟩, .refused .notSupported⟩
    stat := none
    read := none
    slices := lastUnheard (limits.slices content.length) true
    http := fun i => ⟨⟨.plain, fun _ => .plain⟩,
      if i = 0 then .lost true "timed out" else .answered⟩ }

/-- A stream that broke off before any byte had arrived, and was not cleaned up. -/
def brokenOff : CreateFate := .opened (some ⟨0, .io "connection reset", false⟩)

/-- Every backend that is asked leaves a short file, and HTTP answers. -/
def leaving (limits : TransferLimits) (content : Bytes) (now : ℕ) : FromPathScript :=
  { stream := fun _ => ⟨⟨now, now, .refused .notSupported⟩, brokenOff⟩
    stat := none
    read := none
    slices := lastUnheard (limits.slices content.length) false
    http := fun _ => ⟨⟨.plain, fun _ => .plain⟩, .answered⟩ }

theorem relanding_founded : (relanding limits content).Founded := by
  refine ⟨fun i => ?_, lastUnheard_founded _ _, fun i => ?_⟩
  · exact nofun
  · rw [relanding]
    dsimp only
    split <;> trivial

theorem leaving_founded (now : ℕ) : (leaving limits content now).Founded := by
  refine ⟨fun i f hf => ?_, lastUnheard_founded _ _, fun i => trivial⟩
  obtain rfl := Option.some.inj hf
  exact nofun

theorem viaStreams_relanding (fold : String → String) (folder : NasPath) (filename : String)
    (limits : TransferLimits) (content : Bytes) (breakers : List CircuitBreaker) (v : Volume) :
    ∃ breakers', viaStreams fold (joinPath folder filename) content false
      (relanding limits content).stream breakers v = (none, breakers', v) := by
  have hpass : ∀ entry ∈ breakers.zipIdx.map
      fun p => (⟨(relanding limits content).stream p.2, p.1⟩ : TransportEntry _),
      passesOn (askStream fold (joinPath folder filename) content false entry.transport v).1 =
          true ∧
        (askStream fold (joinPath folder filename) content false entry.transport v).2 = v := by
    intro entry hentry
    obtain ⟨_, _, rfl⟩ := List.mem_map.mp hentry
    exact ⟨rfl, rfl⟩
  obtain ⟨entries', h⟩ := viaTransports_passed
    (askStream fold (joinPath folder filename) content false) (fun b _ => b.asked)
    (fun b _ => b.told) hpass
  exact ⟨entries'.map (·.breaker), congrArg (fun r : _ × List (TransportEntry _) × _ =>
    (r.1, r.2.1.map (·.breaker), r.2.2)) h⟩

theorem writeNew_brokenOff {v : Volume}
    (hfree : v.treeAt fold (joinPath folder filename) = none)
    (hdir : v.root.dirAt fold (trimEnd folder) ≠ none) :
    ∃ w, writeNewFromPath fold (joinPath folder filename) content brokenOff v =
      (.error (.io "connection reset"), w) ∧ w.treeAt fold (joinPath folder filename) ≠ none := by
  refine ⟨(v.setFile fold (joinPath folder filename) []).setFile fold (joinPath folder filename)
    (content.take 0), ?_, ?_⟩
  · simp only [brokenOff, writeNewFromPath, Volume.create_of_free hfree hdir, Bool.false_eq_true,
      if_false]
  · rw [Volume.treeAt_setFile_joinPath _ _ (mt (Volume.dirAt_setFile _).mp hdir)]
    exact Option.some_ne_none _

theorem writeNew_meets {v : Volume} (htaken : v.treeAt fold (joinPath folder filename) ≠ none) :
    writeNewFromPath fold (joinPath folder filename) content brokenOff v =
      (.error .alreadyExists, v) := by
  simp only [brokenOff, writeNewFromPath, Volume.create_of_taken htaken]

/-- What a call comes to once one of its backends has left a file: it is the call's
own, and either found by the next backend or still there. -/
def MeetsItself (fold : String → String) (path : NasPath)
    (r : Option (Except SynoFsError Unit) × Volume) : Prop :=
  r.1 = some (.error .alreadyExists) ∨ r.1 = none ∧ r.2.treeAt fold path ≠ none

theorem viaTransports_leaving (limits : TransferLimits) (now : ℕ)
    (entries : List (TransportEntry StreamScript)) {v : Volume}
    (hentries : ∀ entry ∈ entries,
      ∃ i, entry.transport = (leaving limits content now).stream i)
    (hcond : v.treeAt fold (joinPath folder filename) ≠ none ∨
      (v.treeAt fold (joinPath folder filename) = none ∧
        v.root.dirAt fold (trimEnd folder) ≠ none ∧
        ∃ entry ∈ entries, (entry.breaker.allows now).1 = true)) :
    let r := viaTransports (askStream fold (joinPath folder filename) content false)
      (fun b _ => b.asked) (fun b _ => b.told) entries v
    MeetsItself fold (joinPath folder filename) (r.1, r.2.2) := by
  induction entries generalizing v with
  | nil =>
      rcases hcond with htaken | ⟨_, _, entry, hentry, _⟩
      · exact Or.inr ⟨rfl, htaken⟩
      · cases hentry
  | cons entry rest ih =>
      have hrest : ∀ e ∈ rest, ∃ i, e.transport = (leaving limits content now).stream i :=
        fun e he => hentries e (List.mem_cons_of_mem _ he)
      obtain ⟨i, hi⟩ := hentries entry List.mem_cons_self
      have hasked : ((leaving limits content now).stream i).asked = now := rfl
      have hcreate : ((leaving limits content now).stream i).create = brokenOff := rfl
      rw [viaTransports, hi, hasked]
      cases hallows : entry.breaker.allows now with
      | mk allowed breaker =>
          cases allowed with
          | false =>
              refine ih hrest (hcond.imp_right ?_)
              rintro ⟨hfree, hdir, e, he, hallowed⟩
              rcases List.mem_cons.mp he with rfl | he
              · rw [hallows] at hallowed
                cases hallowed
              · exact ⟨hfree, hdir, e, he, hallowed⟩
          | true =>
              simp only [askStream, Bool.false_eq_true, if_false, hcreate]
              rcases hcond with htaken | ⟨hfree, hdir, _⟩
              · rw [writeNew_meets htaken]
                exact Or.inl rfl
              · obtain ⟨w, hw, htaken⟩ := writeNew_brokenOff hfree hdir
                rw [hw]
                simp only [SynoFsError.category, reduceCtorEq, if_false, if_true]
                exact ih hrest (Or.inl htaken)

theorem viaStreams_leaving (limits : TransferLimits) (content : Bytes) (now : ℕ)
    {breakers : List CircuitBreaker}
    {v : Volume} (hfree : v.treeAt fold (joinPath folder filename) = none)
    (hdir : v.root.dirAt fold (trimEnd folder) ≠ none)
    (hasked : ∃ b ∈ breakers, (b.allows now).1 = true) :
    let r := viaStreams fold (joinPath folder filename) content false
      (leaving limits content now).stream breakers v
    MeetsItself fold (joinPath folder filename) (r.1, r.2.2) := by
  refine viaTransports_leaving limits now _ ?_ (Or.inr ⟨hfree, hdir, ?_⟩)
  · intro entry hentry
    obtain ⟨⟨breaker, i⟩, _, rfl⟩ := List.mem_map.mp hentry
    exact ⟨i, rfl⟩
  · obtain ⟨b, hb, hallowed⟩ := hasked
    obtain ⟨i, hi⟩ := List.mem_iff_getElem?.mp hb
    refine ⟨⟨(leaving limits content now).stream i, b⟩, List.mem_map.mpr ⟨(b, i), ?_, rfl⟩,
      hallowed⟩
    exact List.mem_zipIdx_iff_getElem?.mpr hi

theorem CircuitBreaker.exists_allows {b : CircuitBreaker} (h : b.mayAsk = true) :
    ∃ now, (b.allows now).1 = true := by
  cases hstate : b.state with
  | closed => exact ⟨0, by rw [CircuitBreaker.allows, hstate]⟩
  | opened openedAt =>
      refine ⟨openedAt + b.config.cooldown, ?_⟩
      rw [CircuitBreaker.allows, hstate]
      simp
  | halfOpen => simp [CircuitBreaker.mayAsk, hstate] at h

section Breaking

variable {D : Type} [DecidableEq D] [ToString D] {md5 : Bytes → D}

/-- Over HTTP the upload lands unheard and is refused as a collision. -/
theorem relanding_http {s : SliceSession} (hattempts : 1 < limits.maxAttempts)
    (hadmits : s.client.server.Admits fold folder filename) :
    (uploadFromPathHttp fold limits md5 (relanding limits content) content folder filename false
      s).1 = .error (.apiError 418) := by
  rw [uploadFromPathHttp]
  simp only [relanding]
  split
  case isTrue hlong => exact httpSliceUpload_relands hattempts hlong hadmits
  case isFalse =>
    obtain ⟨attempts, hmax⟩ : ∃ n, limits.maxAttempts = n + 2 :=
      ⟨limits.maxAttempts - 2, by omega⟩
    have hstored := (Volume.store_ok (Volume.store_of_admits content hadmits)).2.1
    have hcollides := Volume.store_of_taken content (by rw [hstored]; exact Option.some_ne_none _)
    simp only [httpUpload, hmax, httpUploadFrom, Bool.false_eq_true, if_false, if_true,
      Nat.add_one_ne_zero, hcollides]

/-- Onto a name that is taken, the upload is refused over HTTP. -/
theorem leaving_http {s : SliceSession} (now : ℕ)
    (htaken : s.client.server.treeAt fold (joinPath folder filename) ≠ none) :
    (uploadFromPathHttp fold limits md5 (leaving limits content now) content folder filename false
      s).1 = .error (.apiError 418) := by
  rw [uploadFromPathHttp]
  simp only [leaving]
  split
  case isTrue hlong => exact httpSliceUpload_collides hlong htaken
  case isFalse =>
    obtain ⟨attempts, hmax⟩ := Nat.exists_eq_succ_of_ne_zero limits.attempts_pos.ne'
    simp only [httpUpload, hmax, httpUploadFrom, Bool.false_eq_true, if_false,
      Volume.store_of_taken content htaken]

theorem uploadFromPath_passed {sc : FromPathScript} {s : StreamSession}
    {breakers : List CircuitBreaker} {v : Volume}
    (h : viaStreams fold (joinPath folder filename) content false sc.stream s.streamBreakers
      s.client.server = (none, breakers, v)) :
    (uploadFromPath fold limits md5 sc content folder filename false s).1 =
      (uploadFromPathHttp fold limits md5 sc content folder filename false
        { s.toSliceSession with client := { s.client with server := v } }).1 := by
  simp only [uploadFromPath, h]

/-- A call on a name that was free must not speak of a collision. -/
theorem not_contract_of_collision {path : NasPath} {before after : Volume}
    {result : Except SynoFsError Unit} {e : SynoFsError} (hfree : before.treeAt fold path = none)
    (hresult : result = .error e) (he : e.category = .alreadyExists) :
    ¬ CreateContract fold path content before result after :=
  fun h => h.foreign e hresult he hfree

theorem relanding_breaks {s : StreamSession} (hattempts : 1 < limits.maxAttempts)
    (hadmits : s.client.server.Admits fold folder filename) :
    let r := uploadFromPath fold limits md5 (relanding limits content) content folder filename
      false s
    ¬ CreateContract fold (joinPath folder filename) content s.client.server r.1
      r.2.client.server := by
  obtain ⟨breakers, hstreams⟩ :=
    viaStreams_relanding fold folder filename limits content s.streamBreakers s.client.server
  exact not_contract_of_collision hadmits.1
    ((uploadFromPath_passed hstreams).trans (relanding_http hattempts hadmits)) rfl

theorem leaving_breaks {s : StreamSession} {now : ℕ}
    (hfree : s.client.server.treeAt fold (joinPath folder filename) = none)
    (hdir : s.client.server.root.dirAt fold (trimEnd folder) ≠ none)
    (hasked : ∃ b ∈ s.streamBreakers, (b.allows now).1 = true) :
    let r := uploadFromPath fold limits md5 (leaving limits content now) content folder filename
      false s
    ¬ CreateContract fold (joinPath folder filename) content s.client.server r.1
      r.2.client.server := by
  have hmeets := viaStreams_leaving limits content now hfree hdir hasked
  cases hstreams : viaStreams fold (joinPath folder filename) content false
    (leaving limits content now).stream s.streamBreakers s.client.server with
  | mk answer rest =>
      obtain ⟨breakers, v⟩ := rest
      rw [hstreams] at hmeets
      rcases hmeets with hcollision | ⟨hnone, htaken⟩
      · obtain rfl : answer = some (.error .alreadyExists) := hcollision
        refine @not_contract_of_collision _ _ _ _ _ _ .alreadyExists hfree ?_ rfl
        simp only [uploadFromPath, hstreams]
      · obtain rfl : answer = none := hnone
        exact not_contract_of_collision hfree
          ((uploadFromPath_passed hstreams).trans (leaving_http now htaken)) rfl

end Breaking

/-! ### The contract -/

/-- **`AlreadyExists` from an upload that may not overwrite.** An `upload` keeps
the contract if, and only if, nothing can be made under the name, or no attempt
lands unheard with a later one answered. An `upload_from_path` keeps it if nothing
can be made there, or the backends leave nothing of their own and no attempt over
HTTP lands unheard; and it keeps it whatever happens if, and only if, nothing can
be made there or one attempt, over HTTP, is all there is. -/
theorem collision_is_foreign_iff {D : Type} [DecidableEq D] [ToString D] (fold : String → String)
    (limits : TransferLimits) (md5 : Bytes → D) (content : Bytes) (folder : NasPath)
    (filename : String) (s : StreamSession) :
    (∀ sc : UploadScript, (∀ i, (sc.http i).post.Founded) →
      let r := upload fold limits sc folder filename content false s.client
      (CreateContract fold (joinPath folder filename) content s.client.server r.1 r.2.server ↔
        ¬ s.client.server.Admits fold folder filename ∨ ¬ Relands sc.http limits.maxAttempts)) ∧
    (∀ sc : FromPathScript, sc.Founded →
      (¬ s.client.server.Admits fold folder filename ∨
        Untouched fold folder sc s ∧ sc.HttpTidy limits content) →
      let r := uploadFromPath fold limits md5 sc content folder filename false s
      CreateContract fold (joinPath folder filename) content s.client.server r.1
        r.2.client.server) ∧
    ((∀ sc : FromPathScript, sc.Founded →
      let r := uploadFromPath fold limits md5 sc content folder filename false s
      CreateContract fold (joinPath folder filename) content s.client.server r.1
        r.2.client.server) ↔
      ¬ s.client.server.Admits fold folder filename ∨ limits.maxAttempts = 1 ∧
        ((∀ b ∈ s.streamBreakers, b.mayAsk = false) ∨
          s.client.server.root.dirAt fold (trimEnd folder) = none)) := by
  refine ⟨fun sc hfounded => ?_, fun sc hfounded hcond => ?_, ?_, ?_⟩
  · exact httpUpload_contract hfounded s.client
  · exact uploadFromPath_contract hfounded s (hcond.imp_right (And.imp_right Or.inl))
  · intro hall
    by_contra hcond
    obtain ⟨hadmits, hmore⟩ := not_or.mp hcond
    rw [not_not] at hadmits
    by_cases hone : limits.maxAttempts = 1
    · obtain ⟨hasked, hdir⟩ := not_or.mp (not_and.mp hmore hone)
      push Not at hasked
      obtain ⟨b, hb, hmay⟩ := hasked
      obtain ⟨now, hallowed⟩ := CircuitBreaker.exists_allows (Bool.eq_true_of_not_eq_false hmay)
      exact leaving_breaks hadmits.1 hdir ⟨b, hb, hallowed⟩ (hall _ (leaving_founded now))
    · have hpos := limits.attempts_pos
      exact relanding_breaks (by omega) hadmits (hall _ relanding_founded)
  · intro hcond sc hfounded
    refine uploadFromPath_contract hfounded s (hcond.imp_right ?_)
    rintro ⟨hone, hquiet⟩
    exact ⟨Or.inr hquiet, Or.inr hone⟩

/-- A client with one streaming backend, and a share without a file. -/
def newFile : StreamSession :=
  { client := ⟨[], [], [], { root := .dir [("share", .dir [])], removals := [] }⟩
    partials := fun _ => none, handles := 0, sent := 0,
    streamBreakers := [CircuitBreaker.new .standard] }

/-- The stream breaks off after one byte. The file is uploaded over HTTP, if that
can be reached. -/
def brokenStream (cleaned : Bool) (post : HttpFate) : FromPathScript :=
  { stream := fun _ => ⟨⟨0, 0, .refused .notSupported⟩,
      .opened (some ⟨1, .io "connection reset", cleaned⟩)⟩
    stat := none
    read := none
    slices := lastUnheard 1 false
    http := fun _ => ⟨⟨.plain, fun _ => .plain⟩, post⟩ }

theorem broken_stream_cleaned :
    let r := uploadFromPath id .standard id (brokenStream true .answered) [1, 2] ["share"] "f" false
      newFile
    r.1 = .ok () ∧ r.2.client.server.treeAt id ["share", "f"] = some (.file [1, 2]) ∧
      CreateContract id ["share", "f"] [1, 2] newFile.client.server r.1 r.2.client.server := by
  have hfounded : (brokenStream true .answered).Founded := by
    refine ⟨fun i f hf => ?_, lastUnheard_founded _ _, fun i => trivial⟩
    obtain rfl := Option.some.inj hf
    exact nofun
  have htidy : (brokenStream true .answered).HttpTidy .standard [1, 2] := by
    refine ⟨fun h => absurd h (by decide), fun _ => ?_⟩
    rintro ⟨i, j, _, _, ⟨message, hlost⟩, _⟩
    cases hlost
  refine ⟨rfl, rfl, (collision_is_foreign_iff id .standard id [1, 2] ["share"] "f" newFile).2.1
    (brokenStream true .answered) hfounded (Or.inr ⟨Or.inl fun i f hf => ?_, htidy⟩)⟩
  obtain rfl := Option.some.inj hf
  rfl

/-- A file of the call's own that is reported as another's, and one that stays
short under the name. -/
theorem own_file_reported_taken :
    let once := upload id .standard ⟨declining, (relanding .standard [1]).http⟩ ["share"] "f" [1]
      false newFile.client
    let torn := uploadFromPath id .standard id (brokenStream false (.lost false "timed out"))
      [1, 2] ["share"] "f" false newFile
    (once.1 = .error (.apiError 418) ∧ once.2.server.treeAt id ["share", "f"] = some (.file [1]) ∧
      ¬ CreateContract id ["share", "f"] [1] newFile.client.server once.1 once.2.server) ∧
    torn.1 = .error (.io "timed out") ∧
      torn.2.client.server.treeAt id ["share", "f"] = some (.file [1]) ∧
      ¬ CreateContract id ["share", "f"] [1, 2] newFile.client.server torn.1
        torn.2.client.server := by
  refine ⟨⟨rfl, rfl, fun h => ?_⟩, rfl, rfl, fun h => ?_⟩
  · exact h.foreign (.apiError 418) rfl rfl rfl
  · exact absurd (h.whole (.io "timed out") [1] rfl rfl nofun) (by decide)

end SynologyFilestation.Core
