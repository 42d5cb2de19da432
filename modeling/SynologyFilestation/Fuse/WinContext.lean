import SynologyFilestation.Fuse.Winfs

/-!
What one context of the WinFsp front end makes of a file.

A buffer starts empty whatever the file holds, and is the whole file when it is uploaded. So
the file is what its edits make of it only where the edits since the last upload come to the
same on an empty file.
-/

namespace SynologyFilestation.Fuse

open Core Library Smb

inductive WinCall
  | write (sc : DiskScript) (offset : ℕ) (buffer : Bytes)
  | setFileSize (sc : DiskScript) (newSize : ℕ)
  | flush (sc : DiskScript)
  | close (sc : DiskScript)

/-- One context until it is closed, with the edits that were accepted, those of them since a
flush took the buffer, and whether every call has succeeded: a close that logs has not. -/
structure WinSession (S : Type) where
  fs : SynologyWinFs S
  context : Option SynoFileContext
  edits : List (Edit UInt8)
  recent : List (Edit UInt8)
  ok : Bool

namespace WinSession

variable {S F : Type} (client : NasClient S F)

def start (opened : SynoFileContext × SynologyWinFs S) : WinSession S :=
  { fs := opened.2, context := some opened.1, edits := [], recent := [], ok := true }

/-- The buffer of the context. -/
def held (d : WinSession S) : Option SpillBuffer :=
  d.context.bind fun ctx => d.fs.buffers ctx.writeBuf

/-- An edit, with whether it was accepted. -/
def edit (d : WinSession S) (accepted : Bool) (e : Edit UInt8) (fs : SynologyWinFs S) :
    WinSession S :=
  { d with
    fs := fs
    edits := d.edits ++ [e]
    recent := d.recent ++ [e]
    ok := d.ok && accepted }

/-- A closed context is not called. -/
def call (d : WinSession S) (c : WinCall) : WinSession S :=
  match d.context with
  | none => { d with ok := false }
  | some ctx =>
      match c with
      | .write sc offset buffer =>
          let (r, fs) := d.fs.write ctx sc offset buffer
          d.edit r.isOk (.write offset buffer) fs
      | .setFileSize sc newSize =>
          let (r, fs) := d.fs.setFileSize ctx sc newSize
          d.edit r.isOk (.resize newSize) fs
      | .flush sc =>
          let (r, fs) := d.fs.flush client ctx sc
          { d with fs := fs, recent := [], ok := d.ok && r.isOk }
      | .close sc =>
          let (log, fs) := d.fs.close client ctx sc
          { d with fs := fs, context := none, ok := d.ok && log.isNone }

variable (file : NasPath → S → Option Bytes) (path : NasPath) (base : Bytes)

/-- After a flush or a close the file is what the edits make of `base`, if every call so far
has succeeded. -/
def Patches (d : WinSession S) : WinCall → Prop
  | .flush sc => (d.call client (.flush sc)).ok = true →
      file path (d.call client (.flush sc)).fs.world = some (editAll base d.edits)
  | .close sc => (d.call client (.close sc)).ok = true →
      file path (d.call client (.close sc)).fs.world = some (editAll base d.edits)
  | _ => True

/-- The edits since the last upload make of nothing what all of them make of `base`. -/
def CoveredSince (d : WinSession S) : Prop :=
  d.held.isSome → editedLength defaultSpillAt d.recent = lengthAfter base.length d.edits ∧
    ∀ i, (lastSet d.edits i).getD (base.getD i 0) = (lastSet d.recent i).getD 0

def Covers (d : WinSession S) : WinCall → Prop
  | .flush sc => (d.call client (.flush sc)).ok = true → d.CoveredSince base
  | .close sc => (d.call client (.close sc)).ok = true → d.CoveredSince base
  | _ => True

/-- What is the case between two calls that succeeded. -/
structure Tracked (d : WinSession S) (ctx : SynoFileContext) : Prop where
  nasPath : ctx.nasPath = path
  edited : ∀ b, d.fs.buffers ctx.writeBuf = some b → b.Edited d.recent
  flushed : d.fs.buffers ctx.writeBuf = none →
    d.recent = [] ∧ file path d.fs.world = some (editAll base d.edits)

def Sound (d : WinSession S) : Prop :=
  d.ok = true → ∀ ctx, d.context = some ctx → d.Tracked file path base ctx

end WinSession

section Calls

variable {S F : Type} {client : NasClient S F} {file : NasPath → S → Option Bytes}
  {parent : NasPath} {name : String} {base : Bytes} {d : WinSession S} {ctx : SynoFileContext}

@[simp] theorem SynologyWinFs.buffers_put (fs : SynologyWinFs S) (buf : ℕ)
    (held : Option SpillBuffer) : (fs.put buf held).buffers buf = held := by
  simp [SynologyWinFs.put]

/-- The buffer that an edit goes to. -/
theorem WinSession.Tracked.sink {path : NasPath} (h : d.Tracked file path base ctx) :
    ((d.fs.buffers ctx.writeBuf).getD .new).Edited d.recent := by
  cases hbuf : d.fs.buffers ctx.writeBuf with
  | none =>
      rw [(h.flushed hbuf).1]
      exact SpillBuffer.Edited.new
  | some b => exact h.edited b hbuf

/-- An upload of the context's buffer that succeeds has stored it. -/
theorem send_ok (hclient : client.StoresUploads file) (hpath : ctx.nasPath = parent ++ [name])
    {spill : SpillBuffer} {sc : DiskScript} {payload : Payload} {s s' : S}
    (hpayload : payloadFor spill sc = .ok payload)
    (hok : SynologyWinFs.send client ctx payload s = (.ok (), s')) :
    file (parent ++ [name]) s' = some spill.bytes := by
  rw [SynologyWinFs.send, hpath, splitPath, splitNasPath_concat] at hok
  exact uploadPayload_ok hclient hpayload hok

theorem SynologyWinFs.flush_none {sc : DiskScript} {fs : SynologyWinFs S}
    (h : fs.buffers ctx.writeBuf = none) :
    fs.flush client ctx sc = (.ok ctx.fileInfo, fs) := by
  rw [SynologyWinFs.flush, h]

/-- A flush that succeeds has sent the buffer and takes it away. -/
theorem SynologyWinFs.flush_sent {sc : DiskScript} {fs : SynologyWinFs S} {b : SpillBuffer}
    (hbuf : fs.buffers ctx.writeBuf = some b) (hok : (fs.flush client ctx sc).1.isOk = true) :
    ∃ payload s, payloadFor b sc = .ok payload ∧ send client ctx payload fs.world = (.ok (), s) ∧
      (fs.flush client ctx sc).2 = SynologyWinFs.put { fs with world := s } ctx.writeBuf none := by
  simp only [SynologyWinFs.flush, hbuf] at hok ⊢
  cases hpayload : payloadFor b sc with
  | error why =>
      rw [hpayload] at hok
      cases hok
  | ok payload =>
      simp only [hpayload] at hok ⊢
      cases hsent : send client ctx payload fs.world with
      | mk r s =>
          rw [hsent] at hok
          cases r with
          | error e => cases hok
          | ok u => exact ⟨payload, s, rfl, hsent, rfl⟩

/-- A close that logs nothing has sent the buffer, if there was one. -/
theorem SynologyWinFs.close_sent {sc : DiskScript} {fs : SynologyWinFs S} {b : SpillBuffer}
    (hbuf : fs.buffers ctx.writeBuf = some b) (hok : (fs.close client ctx sc).1.isNone = true) :
    ∃ payload s, payloadFor b sc = .ok payload ∧ send client ctx payload fs.world = (.ok (), s) ∧
      (fs.close client ctx sc).2.world = s := by
  simp only [SynologyWinFs.close, hbuf] at hok ⊢
  cases hpayload : payloadFor b sc with
  | error why => simp [hpayload] at hok
  | ok payload =>
      simp only [hpayload, SynologyWinFs.put] at hok ⊢
      cases hsent : send client ctx payload fs.world with
      | mk r s =>
          rw [hsent] at hok
          cases r with
          | error e => cases hok
          | ok u => exact ⟨payload, s, rfl, hsent, rfl⟩

theorem SynologyWinFs.close_none {sc : DiskScript} {fs : SynologyWinFs S}
    (h : fs.buffers ctx.writeBuf = none) : (fs.close client ctx sc).2.world = fs.world := by
  rw [SynologyWinFs.close, h]
  rfl

namespace WinSession

/-- An edit that is accepted goes to the buffer. -/
theorem Tracked.edit {path : NasPath} (h : d.Tracked file path base ctx) {e : Edit UInt8}
    {b : SpillBuffer} (hb : b.Edited (d.recent ++ [e])) :
    (d.edit true e (d.fs.put ctx.writeBuf (some b))).Tracked file path base ctx := by
  refine ⟨h.nasPath, fun b' hb' => ?_, fun hnone => ?_⟩
  · rw [WinSession.edit, SynologyWinFs.buffers_put] at hb'
    cases hb'
    exact hb
  · rw [WinSession.edit, SynologyWinFs.buffers_put] at hnone
    cases hnone

/-- What one call keeps. -/
theorem Sound.call (h : d.Sound file (parent ++ [name]) base) {c : WinCall}
    (hright : d.Patches client file (parent ++ [name]) base c) :
    (d.call client c).Sound file (parent ++ [name]) base := by
  intro hok ctx hctx
  cases hcontext : d.context with
  | none =>
      rw [WinSession.call, hcontext] at hok
      cases hok
  | some ctx' =>
      cases c with
      | write sc offset buffer =>
          simp only [WinSession.call, hcontext, SynologyWinFs.write] at hok hctx ⊢
          cases hwritten : ((d.fs.buffers ctx'.writeBuf).getD .new).writeAt sc offset buffer with
          | mk r b =>
              cases r with
              | error why => simp [hwritten, WinSession.edit, Except.isOk, Except.toBool] at hok
              | ok u =>
                  simp only [hwritten] at hok hctx ⊢
                  obtain rfl : ctx' = ctx := Option.some.inj (hcontext.symm.trans hctx)
                  have htracked := h (Bool.and_eq_true_iff.mp hok).1 ctx' hcontext
                  have hedited := htracked.sink.writeAt (congrArg Prod.fst hwritten)
                  rw [hwritten] at hedited
                  exact htracked.edit hedited
      | setFileSize sc newSize =>
          simp only [WinSession.call, hcontext, SynologyWinFs.setFileSize] at hok hctx ⊢
          cases hset : ((d.fs.buffers ctx'.writeBuf).getD .new).setLen sc newSize with
          | mk r b =>
              cases r with
              | error why => simp [hset, WinSession.edit, Except.isOk, Except.toBool] at hok
              | ok u =>
                  simp only [hset] at hok hctx ⊢
                  obtain rfl : ctx' = ctx := Option.some.inj (hcontext.symm.trans hctx)
                  have htracked := h (Bool.and_eq_true_iff.mp hok).1 ctx' hcontext
                  have hedited := htracked.sink.setLen (congrArg Prod.fst hset)
                  rw [hset] at hedited
                  exact htracked.edit hedited
      | flush sc =>
          have hfile := hright hok
          simp only [WinSession.call, hcontext] at hok hctx hfile ⊢
          obtain rfl : ctx' = ctx := Option.some.inj hctx
          obtain ⟨hbefore, hflush⟩ := Bool.and_eq_true_iff.mp hok
          have htracked := h hbefore ctx' hcontext
          have hgone : (d.fs.flush client ctx' sc).2.buffers ctx'.writeBuf = none := by
            cases hbuf : d.fs.buffers ctx'.writeBuf with
            | none => rw [SynologyWinFs.flush_none hbuf, hbuf]
            | some b =>
                obtain ⟨_, s, _, _, hfs⟩ := SynologyWinFs.flush_sent hbuf hflush
                rw [hfs, SynologyWinFs.buffers_put]
          refine ⟨htracked.nasPath, fun b hb => ?_, fun _ => ⟨rfl, hfile⟩⟩
          rw [hgone] at hb
          cases hb
      | close sc =>
          simp only [WinSession.call, hcontext] at hctx
          cases hctx

/-- A buffer is what the edits make of `base` where those it has seen come to the same. -/
theorem coveredSince_iff {b : SpillBuffer} (hheld : d.held = some b) (hb : b.Edited d.recent) :
    b.bytes = editAll base d.edits ↔ d.CoveredSince base := by
  rw [eq_editAll_iff_of_edits _ _ hb.reads, hb.length, CoveredSince, hheld]
  simp

/-- What is stored once the context's buffer is sent, or is there if it has none. -/
theorem Tracked.stored_iff (hclient : client.StoresUploads file) (sc : DiskScript)
    (h : d.Tracked file (parent ++ [name]) base ctx) (hcontext : d.context = some ctx) {s : S}
    (hnone : d.fs.buffers ctx.writeBuf = none → s = d.fs.world)
    (hsome : ∀ b, d.fs.buffers ctx.writeBuf = some b →
      ∃ payload, payloadFor b sc = .ok payload ∧
        SynologyWinFs.send client ctx payload d.fs.world = (.ok (), s)) :
    file (parent ++ [name]) s = some (editAll base d.edits) ↔ d.CoveredSince base := by
  have hheld : d.held = d.fs.buffers ctx.writeBuf := by rw [WinSession.held, hcontext]; rfl
  cases hbuf : d.fs.buffers ctx.writeBuf with
  | none =>
      rw [hnone hbuf, CoveredSince, hheld, hbuf]
      exact iff_of_true (h.flushed hbuf).2 (fun hsome => by cases hsome)
  | some b =>
      obtain ⟨payload, hpayload, hsent⟩ := hsome b hbuf
      rw [send_ok hclient h.nasPath hpayload hsent, Option.some.injEq]
      exact coveredSince_iff (hheld.trans hbuf) (h.edited b hbuf)

theorem Sound.patches_iff (hclient : client.StoresUploads file)
    (h : d.Sound file (parent ++ [name]) base) (c : WinCall) :
    d.Patches client file (parent ++ [name]) base c ↔ d.Covers client base c := by
  cases c with
  | write sc offset buffer => exact Iff.rfl
  | setFileSize sc newSize => exact Iff.rfl
  | flush sc =>
      refine imp_congr_right fun hok => ?_
      cases hcontext : d.context with
      | none =>
          rw [WinSession.call, hcontext] at hok
          cases hok
      | some ctx =>
          simp only [WinSession.call, hcontext] at hok ⊢
          obtain ⟨hbefore, hflush⟩ := Bool.and_eq_true_iff.mp hok
          refine (h hbefore ctx hcontext).stored_iff hclient sc hcontext (fun hbuf => ?_)
            fun b hbuf => ?_
          · rw [SynologyWinFs.flush_none hbuf]
          · obtain ⟨payload, s, hpayload, hsent, hfs⟩ := SynologyWinFs.flush_sent hbuf hflush
            rw [hfs]
            exact ⟨payload, hpayload, hsent⟩
  | close sc =>
      refine imp_congr_right fun hok => ?_
      cases hcontext : d.context with
      | none =>
          rw [WinSession.call, hcontext] at hok
          cases hok
      | some ctx =>
          simp only [WinSession.call, hcontext] at hok ⊢
          obtain ⟨hbefore, hclose⟩ := Bool.and_eq_true_iff.mp hok
          refine (h hbefore ctx hcontext).stored_iff hclient sc hcontext
            SynologyWinFs.close_none fun b hbuf => ?_
          obtain ⟨payload, s, hpayload, hsent, hworld⟩ := SynologyWinFs.close_sent hbuf hclose
          rw [hworld]
          exact ⟨payload, hpayload, hsent⟩

end WinSession

/-- A context of a file: an opened one whose content is there and has nothing pending, or one
that was just created, which is empty. -/
inductive Opened (file : NasPath → S → Option Bytes) (path : NasPath) (fs : SynologyWinFs S) :
    Bytes → SynoFileContext × SynologyWinFs S → Prop
  | existing {content : Bytes} {getInfo : NasPath → Except SynoFsError (Option ℕ)}
      {ctx : SynoFileContext} {fs' : SynologyWinFs S} (hfile : file path fs.world = some content)
      (hpending : fs.pendingFiles path = none)
      (hopen : fs.open getInfo path = (.ok ctx, fs')) : Opened file path fs content (ctx, fs')
  | created : Opened file path fs [] (fs.create path)

theorem Opened.sound {fs : SynologyWinFs S} {opened : SynoFileContext × SynologyWinFs S}
    (h : Opened file (parent ++ [name]) fs base opened) :
    (WinSession.start opened).Sound file (parent ++ [name]) base := by
  intro _ ctx hctx
  cases hctx
  cases h with
  | @existing _ getInfo ctx fs' hfile hpending hopen =>
      simp only [SynologyWinFs.open, List.append_eq_nil_iff, List.cons_ne_self, and_false,
        if_false, hpending] at hopen
      cases hinfo : getInfo (parent ++ [name]) with
      | error e => simp [hinfo] at hopen
      | ok size =>
          simp only [hinfo, SynologyWinFs.allocate, Prod.mk.injEq, Except.ok.injEq] at hopen
          obtain ⟨rfl, rfl⟩ := hopen
          refine ⟨rfl, fun b hb => ?_, fun _ => ⟨rfl, hfile⟩⟩
          simp [WinSession.start] at hb
  | created =>
      have hbuf : (fs.create (parent ++ [name])).2.buffers
          (fs.create (parent ++ [name])).1.writeBuf = some .new := by
        simp [SynologyWinFs.create, SynologyWinFs.allocate]
      refine ⟨rfl, fun b hb => ?_, fun hnone => ?_⟩
      · cases hbuf.symm.trans hb
        exact SpillBuffer.Edited.new
      · cases hbuf.symm.trans hnone

/-- **When a context patches its file.** In a run of calls on one context, every flush and
every close leaves what the edits make of the file that was opened, as long as all calls have
succeeded, exactly when at each of them that has a buffer the edits since the last upload make
the same of an empty file. -/
theorem context_patches_iff_covered (hclient : client.StoresUploads file) {fs : SynologyWinFs S}
    {opened : SynoFileContext × SynologyWinFs S}
    (hopened : Opened file (parent ++ [name]) fs base opened) (calls : List WinCall) :
    EveryStep (WinSession.call client)
        (WinSession.Patches client file (parent ++ [name]) base) (.start opened) calls ↔
      EveryStep (WinSession.call client) (WinSession.Covers client base) (.start opened) calls :=
  everyStep_iff_of_met (I := WinSession.Sound file (parent ++ [name]) base)
    (fun h hright => h.call hright) (fun h => h.patches_iff hclient _) hopened.sound calls

end Calls

/-- A mount without contexts. -/
def winMount (files : List (NasPath × Bytes)) : SynologyWinFs Nas :=
  { pendingFiles := fun _ => none, buffers := fun _ => none, allocated := 0,
    world := { files := files } }

/-- A file is created, written once and flushed. -/
theorem created_file_stored :
    EveryStep (WinSession.call (nasClient false))
      (WinSession.Patches (nasClient false) Nas.file ["share", "f"] [])
      (.start ((winMount []).create ["share", "f"]))
      [.setFileSize {} 1, .write {} 0 [7, 8], .flush {}, .close {}] := by
  refine (@context_patches_iff_covered _ _ _ _ ["share"] "f" _
    (nasClient_stores false).uploads _ _ .created _).mpr ?_
  refine ⟨trivial, trivial, fun _ _ => ⟨rfl, fun i => ?_⟩, fun _ hsome => ?_, trivial⟩
  · rfl
  · cases hsome

/-- One byte written to a file of three: the close uploads it alone. -/
theorem opened_file_cut :
    ∃ ctx fs, (winMount [(["share", "f"], [1, 2, 3])]).open (fun _ => .ok (some 3))
        ["share", "f"] = (.ok ctx, fs) ∧
      ¬ EveryStep (WinSession.call (nasClient false))
        (WinSession.Patches (nasClient false) Nas.file ["share", "f"] [1, 2, 3])
        (.start (ctx, fs)) [.write {} 0 [9], .close {}] := by
  refine ⟨_, _, rfl, fun h => ?_⟩
  have hfile := h.2.1 rfl
  revert hfile
  decide +kernel

end SynologyFilestation.Fuse
