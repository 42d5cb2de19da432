import SynologyFilestation.Library.Framing
import SynologyFilestation.Openvpn.KeyMethod

/-!
The messages of the control plaintext, one behind the other (`openvpn/src/key_method.rs`).

Key methods and control messages have no frame around them. Whoever reads decodes what has
arrived, takes off what was decoded, and waits while the answer is that it is truncated.
-/

namespace SynologyFilestation.Openvpn

open Core Library

/-! ### What is sent -/

/-- A string that a key method has room for. -/
structure Field where
  text : List Char
  fits : (utf8 text).length + 1 < 2 ^ 16

/-- What the server sends through the TLS session. -/
inductive Sent
  | keyMethod2 (random1 random2 : {bytes : Bytes // bytes.length = 32})
      (options username password peerInfo : Field)
  | control (text : List Char) (nonempty : text ≠ []) (noNul : '\x00' ∉ text)

def Field.encode (field : Field) : Bytes :=
  if utf8 field.text = [] then [0, 0]
  else .ofNat (((utf8 field.text).length + 1) / 2 ^ 8) :: .ofNat ((utf8 field.text).length + 1) ::
    utf8 field.text ++ [0]

theorem Field.writeString_eq (field : Field) (context : String) :
    writeString (utf8 field.text) context = .ok field.encode := by
  rw [writeString, encode]
  split
  · rfl
  · rw [if_neg (Nat.not_le.mpr field.fits)]

namespace Sent

def encode : Sent → Bytes
  | keyMethod2 random1 random2 options username password peerInfo =>
      [0, 0, 0, 0, 2] ++ (random1.val ++ (random2.val ++ (options.encode ++ (username.encode ++
        (password.encode ++ peerInfo.encode)))))
  | control text _ _ => utf8 text ++ [0]

/-- What a message is decoded to. -/
def value : Sent → ServerMessage
  | keyMethod2 random1 random2 options _ _ _ =>
      .keyMethod2 ⟨random1.val, random2.val, utf8 options.text⟩
  | control text _ _ => .control (utf8 text)

end Sent

/-! ### The reader -/

def IsTruncated (e : Error) : Prop := ∃ context, e = .truncated context

theorem isTruncated (context : String) : IsTruncated (.truncated context) := ⟨context, rfl⟩

theorem awaits_take (n : ℕ) (context : String) :
    Awaits IsTruncated (takeFront n (Error.truncated context) : Bytes → _) :=
  awaits_takeFront n (isTruncated context)

theorem awaits_readString (context : String) : Awaits IsTruncated (readString context) := by
  refine (awaits_take 2 context).bind fun length => ?_
  refine .ite _ (.pure _) ?_
  exact (awaits_take _ context).bind fun text => .pure _

/-- `ServerKeyMethod2::decode` behind the key method. -/
def readFields (bytes : Bytes) : Except Error (ServerKeyMethod2 × Bytes) := do
  let (random1, rest) ← takeFront 32 (Error.truncated "the server's first random") bytes
  let (random2, rest) ← takeFront 32 (Error.truncated "the server's second random") rest
  let (options, rest) ← readString "the options string" rest
  let (_, rest) ← readString "a username" rest
  let (_, rest) ← readString "a password" rest
  let (_, rest) ← readString "peer info" rest
  .ok (⟨random1.val, random2.val, options⟩, rest)

theorem awaits_readFields : Awaits IsTruncated readFields := by
  refine (awaits_take 32 _).bind fun random1 => ?_
  refine (awaits_take 32 _).bind fun random2 => ?_
  refine (awaits_readString _).bind fun options => ?_
  refine (awaits_readString _).bind fun username => ?_
  refine (awaits_readString _).bind fun password => ?_
  exact (awaits_readString _).bind fun peerInfo => .pure _

theorem ServerKeyMethod2.decode_other {method : UInt8} (h : method ≠ 2) (rest : Bytes) :
    ServerKeyMethod2.decode ([0, 0, 0, 0] ++ method :: rest) =
      .error (.unsupportedKeyMethod method) := by
  have hzeros : takeFront 4 (Error.truncated "the leading zero") ([0, 0, 0, 0] ++ method :: rest) =
      .ok (⟨[0, 0, 0, 0], rfl⟩, method :: rest) :=
    (lossless_takeFront 4 _ _ _ _).mpr ⟨trivial, rfl⟩
  rw [ServerKeyMethod2.decode, hzeros]
  exact if_pos h

theorem ServerKeyMethod2.decode_readFields (rest : Bytes) :
    ServerKeyMethod2.decode ([0, 0, 0, 0] ++ 2 :: rest) =
      (readFields rest).map fun found => (found.1, 5 + rest.length - found.2.length) := by
  have hlength : ([0, 0, 0, 0] ++ 2 :: rest : Bytes).length = 5 + rest.length := by
    simp only [List.length_append, List.length_cons, List.length_nil]
    omega
  have hzeros : takeFront 4 (Error.truncated "the leading zero") ([0, 0, 0, 0] ++ 2 :: rest) =
      .ok (⟨[0, 0, 0, 0], rfl⟩, 2 :: rest) :=
    (lossless_takeFront 4 _ _ _ _).mpr ⟨trivial, rfl⟩
  have hmethod : ControlPacket.readU8 "a key method" (2 :: rest) = .ok (2, rest) := rfl
  rw [ServerKeyMethod2.decode, readFields, hlength, hzeros]
  simp only [bind, Except.bind, hmethod, ne_eq, not_true_eq_false, if_false]
  cases takeFront 32 (Error.truncated "the server's first random") rest with
  | error e => rfl
  | ok random1 =>
  dsimp only
  cases takeFront 32 (Error.truncated "the server's second random") random1.2 with
  | error e => rfl
  | ok random2 =>
  dsimp only
  cases readString "the options string" random2.2 with
  | error e => rfl
  | ok options =>
  dsimp only
  cases readString "a username" options.2 with
  | error e => rfl
  | ok username =>
  dsimp only
  cases readString "a password" username.2 with
  | error e => rfl
  | ok password =>
  dsimp only
  cases readString "peer info" password.2 <;> rfl

namespace ServerMessage

variable {bytes rest text : Bytes} {context : String} {message : ServerMessage} {used : ℕ}

theorem decode_short (h : bytes.length < 4) :
    decode bytes = .error (.truncated "a message header") := if_pos h

theorem decode_header : decode [0, 0, 0, 0] = .error (.truncated "a key method") := by
  decide

theorem decode_other {method : UInt8} (h : method ≠ 2) (rest : Bytes) :
    decode ([0, 0, 0, 0] ++ method :: rest) = .error (.unsupportedKeyMethod method) := by
  rw [decode, if_neg (by simp), if_neg (by simp), ServerKeyMethod2.decode_other h]

theorem decode_fields (rest : Bytes) : decode ([0, 0, 0, 0] ++ 2 :: rest) =
    (readFields rest).map fun found =>
      (.keyMethod2 found.1, 5 + rest.length - found.2.length) := by
  rw [decode, if_neg (by simp), if_neg (by simp), ServerKeyMethod2.decode_readFields]
  cases readFields rest <;> rfl

theorem findIdx_zero (hzero : 0 ∉ text) (rest : Bytes) :
    (text ++ 0 :: rest).findIdx? (· = 0) = some text.length := by
  rw [List.findIdx?_append, List.findIdx?_eq_none_iff.mpr]
  · simp [List.findIdx?_cons]
  · intro byte hbyte
    simpa using fun h : byte = 0 => hzero (h ▸ hbyte)

theorem take_ne_zeros (hne : text ≠ []) (hzero : 0 ∉ text) (rest : Bytes) :
    (text ++ rest).take 4 ≠ [0, 0, 0, 0] := by
  obtain ⟨first, text, rfl⟩ := List.exists_cons_of_ne_nil hne
  intro htake
  exact hzero ((List.cons.inj htake).1 ▸ List.mem_cons_self)

/-- A control message ends with the first NUL. -/
theorem decode_control (hzero : 0 ∉ text) (rest : Bytes)
    (hlength : 4 ≤ (text ++ 0 :: rest).length)
    (hfront : (text ++ 0 :: rest).take 4 ≠ [0, 0, 0, 0]) :
    decode (text ++ 0 :: rest) = .ok (.control (fromUtf8Lossy text), text.length + 1) := by
  rw [decode, if_neg (by omega), if_pos hfront, findIdx_zero hzero]
  simp

theorem decode_noNul (hfront : bytes.take 4 ≠ [0, 0, 0, 0]) (hlength : 4 ≤ bytes.length)
    (hzero : 0 ∉ bytes) : decode bytes = .error (.truncated "a control message") := by
  have hnone : bytes.findIdx? (· = 0) = none := by
    rw [List.findIdx?_eq_none_iff]
    intro byte hbyte
    simpa using fun h : byte = 0 => hzero (h ▸ hbyte)
  rw [decode, if_neg (by omega), if_pos hfront, hnone]

/-- What arrives begins in one of these ways. -/
inductive Shape : Bytes → Prop
  | short {bytes : Bytes} (h : bytes.length < 4) : Shape bytes
  | header : Shape [0, 0, 0, 0]
  | other {method : UInt8} (h : method ≠ 2) (rest : Bytes) : Shape ([0, 0, 0, 0] ++ method :: rest)
  | fields (rest : Bytes) : Shape ([0, 0, 0, 0] ++ 2 :: rest)
  | noNul {bytes : Bytes} (hlength : 4 ≤ bytes.length) (hfront : bytes.take 4 ≠ [0, 0, 0, 0])
      (hzero : 0 ∉ bytes) : Shape bytes
  | control {text : Bytes} (hzero : 0 ∉ text) (rest : Bytes)
      (hlength : 4 ≤ (text ++ 0 :: rest).length)
      (hfront : (text ++ 0 :: rest).take 4 ≠ [0, 0, 0, 0]) : Shape (text ++ 0 :: rest)

theorem shape (bytes : Bytes) : Shape bytes := by
  by_cases hlength : bytes.length < 4
  · exact .short hlength
  by_cases hfront : bytes.take 4 = [0, 0, 0, 0]
  · rw [← List.take_append_drop 4 bytes, hfront]
    rcases bytes.drop 4 with _ | ⟨method, rest⟩
    · exact .header
    · by_cases htwo : method = 2
      · exact htwo ▸ .fields rest
      · exact .other htwo rest
  · by_cases hmem : 0 ∈ bytes
    · obtain ⟨text, rest, rfl, hzero⟩ := List.eq_append_cons_of_mem hmem
      exact .control hzero rest (by omega) hfront
    · exact .noNul (by omega) hfront hmem

theorem take_append (hlength : 4 ≤ bytes.length) (more : Bytes) :
    (bytes ++ more).take 4 = bytes.take 4 := List.take_append_of_le_length hlength

/-- **An answer other than truncated stays**, whatever comes behind. -/
theorem decode_append {answer : Except Error (ServerMessage × ℕ)} (h : decode bytes = answer)
    (hanswer : ∀ context, answer ≠ .error (.truncated context)) (more : Bytes) :
    decode (bytes ++ more) = answer := by
  subst h
  cases shape bytes with
  | short hshort => exact absurd (decode_short hshort) (hanswer _)
  | header => exact absurd decode_header (hanswer _)
  | other hother rest =>
      rw [decode_other hother rest]
      exact decode_other hother (rest ++ more)
  | fields rest =>
      have hmore : decode ([0, 0, 0, 0] ++ 2 :: rest ++ more) = _ := decode_fields (rest ++ more)
      rw [hmore, decode_fields]
      rw [decode_fields] at hanswer
      cases hrest : readFields rest with
      | error e =>
          obtain ⟨context, rfl⟩ := awaits_readFields.short hrest
          rw [hrest] at hanswer
          exact absurd rfl (hanswer context)
      | ok found =>
          have hused : 5 + (rest.length + more.length) - (found.2.length + more.length) =
              5 + rest.length - found.2.length := by omega
          rw [awaits_readFields.ok hrest more]
          simp only [Except.map, List.length_append, hused]
  | noNul hlength hfront hzero => exact absurd (decode_noNul hfront hlength hzero) (hanswer _)
  | @control text hzero rest hlength hfront =>
      rw [decode_control hzero rest hlength hfront, List.append_assoc, List.cons_append]
      refine decode_control hzero (rest ++ more) ?_ ?_
      · rw [List.length_append, List.length_cons] at hlength ⊢
        rw [List.length_append]
        omega
      · have hsame := take_append hlength more
        rw [List.append_assoc, List.cons_append] at hsame
        rwa [hsame]

theorem decode_used (h : decode bytes = .ok (message, used)) : 0 < used ∧ used ≤ bytes.length := by
  cases shape bytes with
  | short hshort => simp [decode_short hshort] at h
  | header => simp [decode_header] at h
  | other hother rest =>
      rw [decode_other hother rest] at h
      cases h
  | fields rest =>
      rw [decode_fields] at h
      cases hrest : readFields rest with
      | error e => simp [hrest, Except.map] at h
      | ok found =>
          rw [hrest] at h
          obtain ⟨-, rfl⟩ := Prod.mk.inj (Except.ok.inj h)
          have hle := (awaits_readFields.suffix hrest).length_le
          simp only [List.length_append, List.length_cons, List.length_nil]
          omega
  | noNul hlength hfront hzero => simp [decode_noNul hfront hlength hzero] at h
  | control hzero rest hlength hfront =>
      rw [decode_control hzero rest hlength hfront] at h
      obtain ⟨-, rfl⟩ := Prod.mk.inj (Except.ok.inj h)
      rw [List.length_append, List.length_cons]
      omega

theorem framed_decode : Framed decode where
  used := decode_used
  ok h more := decode_append h nofun more

/-! ### What is truncated -/

/-- Bytes that are the beginning of a message, and not all of it. -/
def Begins (bytes : Bytes) : Prop :=
  ∃ more, more ≠ [] ∧ ∃ message, decode (bytes ++ more) = .ok (message, (bytes ++ more).length)

theorem begins_of_noNul (hzero : 0 ∉ bytes) : Begins bytes := by
  have htext : 0 ∉ bytes ++ [1, 1, 1] := by simp [hzero]
  have hne : bytes ++ [1, 1, 1] ≠ [] := by simp
  have hdecode := decode_control htext [] (by simp) (take_ne_zeros hne htext _)
  have hbytes : bytes ++ [1, 1, 1, 0] = bytes ++ [1, 1, 1] ++ 0 :: [] := by simp
  refine ⟨[1, 1, 1, 0], by simp, .control (fromUtf8Lossy (bytes ++ [1, 1, 1])), ?_⟩
  rw [hbytes, hdecode]
  simp

theorem begins_of_fields {rest : Bytes} (h : ∃ more found, more ≠ [] ∧
    readFields (rest ++ more) = .ok (found, [])) : Begins ([0, 0, 0, 0] ++ 2 :: rest) := by
  obtain ⟨more, found, hne, hmore⟩ := h
  have hdecode : decode ([0, 0, 0, 0] ++ 2 :: rest ++ more) = _ := decode_fields (rest ++ more)
  refine ⟨more, hne, .keyMethod2 found, ?_⟩
  rw [hdecode, hmore]
  simp [Except.map]
  omega

theorem begins_of_error {rest : Bytes} {e : Error} (h : readFields rest = .error e) :
    Begins ([0, 0, 0, 0] ++ 2 :: rest) := by
  obtain ⟨more, found, hmore⟩ := awaits_readFields.completes h
  refine begins_of_fields ⟨more, found, ?_, hmore⟩
  rintro rfl
  rw [List.append_nil, h] at hmore
  cases hmore

/-- Zeros begin a key method, as long as there are no more than four. -/
theorem begins_of_zeros {n : ℕ} (hn : n ≤ 4) : Begins (List.replicate n 0) := by
  obtain ⟨more, found, hmore⟩ := awaits_readFields.read_nil
  have hdecode : decode ([0, 0, 0, 0] ++ 2 :: more) = _ := decode_fields more
  have hbytes : List.replicate n 0 ++ (List.replicate (4 - n) 0 ++ 2 :: more) =
      ([0, 0, 0, 0] ++ 2 :: more : Bytes) := by
    rw [← List.append_assoc, List.replicate_append_replicate, Nat.add_sub_cancel' hn]
    rfl
  refine ⟨List.replicate (4 - n) 0 ++ 2 :: more, by simp, .keyMethod2 found, ?_⟩
  rw [hbytes, hdecode, hmore]
  simp [Except.map]
  omega

/-- A NUL behind something else ends a control message. -/
theorem not_begins {text rest : Bytes} (hzero : 0 ∉ text)
    (h : ∃ byte ∈ text ++ 0 :: rest, byte ≠ 0) (hshort : (text ++ 0 :: rest).length < 4) :
    ¬Begins (text ++ 0 :: rest) := by
  rintro ⟨more, hne, message, hdecode⟩
  have hmore : 0 < more.length := List.length_pos_iff.mpr hne
  have hlength : 4 ≤ (text ++ 0 :: rest ++ more).length := by
    by_contra hless
    rw [decode_short (by omega)] at hdecode
    cases hdecode
  have hfront : (text ++ 0 :: rest ++ more).take 4 ≠ [0, 0, 0, 0] := by
    obtain ⟨byte, hbyte, hother⟩ := h
    intro htake
    have hmem : byte ∈ (text ++ 0 :: rest ++ more).take 4 := by
      rw [List.take_append]
      exact List.mem_append_left _ ((List.take_of_length_le hshort.le).symm ▸ hbyte)
    rw [htake] at hmem
    exact hother (List.eq_of_mem_replicate (n := 4) hmem)
  rw [List.append_assoc, List.cons_append] at hdecode hlength hfront
  rw [decode_control hzero (rest ++ more) hlength hfront] at hdecode
  have hused := (Prod.mk.inj (Except.ok.inj hdecode)).2
  simp only [List.length_append, List.length_cons] at hused
  omega

/-- **What is truncated**: with four bytes the beginning of a message; with less also a
control message that is all there. -/
theorem begins_iff (h : decode bytes = .error (.truncated context)) :
    Begins bytes ↔ 4 ≤ bytes.length ∨ 0 ∉ bytes ∨ ∀ byte ∈ bytes, byte = 0 := by
  cases shape bytes with
  | short hshort =>
      constructor
      · intro hbegins
        refine .inr ?_
        by_contra hnone
        obtain ⟨hmem, hother⟩ := not_or.mp hnone
        obtain ⟨text, rest, rfl, hzero⟩ := List.eq_append_cons_of_mem (not_not.mp hmem)
        exact not_begins hzero (by simpa using hother) hshort hbegins
      · rintro (hlong | hzero | hzeros)
        · exact absurd hshort (by omega)
        · exact begins_of_noNul hzero
        · rw [List.eq_replicate_of_mem hzeros]
          exact begins_of_zeros (by omega)
  | header => exact iff_of_true (begins_of_zeros (n := 4) le_rfl) (.inl (by simp))
  | other hother rest =>
      rw [decode_other hother rest] at h
      cases h
  | fields rest =>
      refine iff_of_true ?_ (.inl (by simp))
      rw [decode_fields] at h
      cases hrest : readFields rest with
      | error e => exact begins_of_error hrest
      | ok found => simp [hrest, Except.map] at h
  | noNul hlength hfront hzero => exact iff_of_true (begins_of_noNul hzero) (.inl hlength)
  | control hzero rest hlength hfront => simp [decode_control hzero rest hlength hfront] at h

end ServerMessage

/-! ### What is sent is decoded -/

theorem lengthBytes {n : ℕ} (h : n < 2 ^ 16) :
    [UInt8.ofNat (n / 2 ^ 8), UInt8.ofNat n].foldl (fun n byte => n * 2 ^ 8 + byte.toNat) 0 =
      n := by
  simp only [List.foldl_cons, List.foldl_nil, UInt8.toNat_ofNat']
  omega

theorem readString_encode (field : Field) (context : String) (rest : Bytes) :
    readString context (field.encode ++ rest) = .ok (utf8 field.text, rest) := by
  rw [readString, Field.encode]
  split
  case isTrue hempty =>
    refine bind_eq_ok.mpr ⟨(⟨[0, 0], rfl⟩, rest),
      (lossless_takeFront 2 _ _ _ _).mpr ⟨trivial, rfl⟩, ?_⟩
    dsimp only
    rw [if_pos (by decide), hempty]
  case isFalse hne =>
    have hlength := lengthBytes field.fits
    generalize UInt8.ofNat (((utf8 field.text).length + 1) / 2 ^ 8) = high at hlength ⊢
    generalize UInt8.ofNat ((utf8 field.text).length + 1) = low at hlength ⊢
    refine bind_eq_ok.mpr ⟨(⟨[high, low], rfl⟩, utf8 field.text ++ [0] ++ rest),
      (lossless_takeFront 2 _ _ _ _).mpr ⟨trivial, rfl⟩, ?_⟩
    dsimp only
    rw [if_neg (by omega)]
    refine bind_eq_ok.mpr ⟨(⟨utf8 field.text ++ [0], ?_⟩, rest),
      (lossless_takeFront _ _ _ _ _).mpr ⟨trivial, rfl⟩, ?_⟩
    · rw [hlength, List.length_append, List.length_singleton]
    · simp [fromUtf8Lossy_utf8]

namespace Sent

open ServerMessage

theorem utf8_ne_nil {text : List Char} (h : text ≠ []) : utf8 text ≠ [] := by
  obtain ⟨c, text, rfl⟩ := List.exists_cons_of_ne_nil h
  rw [utf8, List.flatMap_cons]
  exact List.append_ne_nil_of_left_ne_nil String.utf8EncodeChar_ne_nil _

theorem two_le_length (m : Sent) : 2 ≤ m.encode.length := by
  cases m with
  | keyMethod2 => simp [encode]
  | control text hne _ =>
      have hpos : 0 < (utf8 text).length := List.length_pos_iff.mpr (utf8_ne_nil hne)
      rw [encode, List.length_append, List.length_singleton]
      omega

theorem decode_encode (m : Sent) (rest : Bytes) (hlength : 4 ≤ (m.encode ++ rest).length) :
    decode (m.encode ++ rest) = .ok (m.value, m.encode.length) := by
  cases m with
  | keyMethod2 random1 random2 options username password peerInfo =>
      have hfields : readFields (random1.val ++ (random2.val ++ (options.encode ++
          (username.encode ++ (password.encode ++ (peerInfo.encode ++ rest)))))) =
            .ok (⟨random1.val, random2.val, utf8 options.text⟩, rest) := by
        refine bind_eq_ok.mpr ⟨_, (lossless_takeFront 32 _ _ random1 _).mpr ⟨trivial, rfl⟩, ?_⟩
        refine bind_eq_ok.mpr ⟨_, (lossless_takeFront 32 _ _ random2 _).mpr ⟨trivial, rfl⟩, ?_⟩
        refine bind_eq_ok.mpr ⟨_, readString_encode options _ _, ?_⟩
        refine bind_eq_ok.mpr ⟨_, readString_encode username _ _, ?_⟩
        refine bind_eq_ok.mpr ⟨_, readString_encode password _ _, ?_⟩
        exact bind_eq_ok.mpr ⟨_, readString_encode peerInfo _ _, rfl⟩
      have hdecode := decode_fields (random1.val ++ (random2.val ++ (options.encode ++
        (username.encode ++ (password.encode ++ (peerInfo.encode ++ rest))))))
      rw [hfields] at hdecode
      simp only [encode, value, List.append_assoc]
      refine hdecode.trans ?_
      simp [Except.map]
      omega
  | control text hne hnul =>
      have hzero := zero_notMem_utf8 hnul
      rw [encode, List.append_assoc] at hlength ⊢
      rw [List.singleton_append] at hlength ⊢
      rw [decode_control hzero rest hlength (take_ne_zeros (utf8_ne_nil hne) hzero _),
        fromUtf8Lossy_utf8, List.length_append]
      rfl

/-- All but a short message at the very end is decoded. -/
theorem decodeAll_encode (ms : List Sent) (rest : Bytes) (hrest : ms = [] ∨ 2 ≤ rest.length) :
    decodeAll decode (ms.flatMap encode ++ rest) =
      (ms.map value ++ (decodeAll decode rest).1, (decodeAll decode rest).2) := by
  induction ms with
  | nil => rfl
  | cons m ms ih =>
      have hrest : 2 ≤ rest.length := hrest.resolve_left nofun
      have hdecode := m.decode_encode (ms.flatMap encode ++ rest) (by
        have htwo := m.two_le_length
        simp only [List.length_append]
        omega)
      rw [List.flatMap_cons, List.append_assoc, framed_decode.decodeAll_ok hdecode,
        List.drop_left, ih (.inr hrest)]
      rfl

/-- A message that the decoder takes wherever it stands: one of four bytes at least. -/
def IsLong (m : Sent) : Prop := 4 ≤ m.encode.length

theorem decodeAll_last (ms : List Sent) :
    (decodeAll decode (ms.flatMap encode)).1 = ms.map value ↔ ∀ m ∈ ms.getLast?, m.IsLong := by
  induction ms using List.reverseRecOn with
  | nil => exact iff_of_true rfl nofun
  | append_singleton ms m =>
      rw [List.flatMap_append, List.flatMap_singleton,
        decodeAll_encode ms m.encode (.inr m.two_le_length), List.getLast?_concat]
      simp only [Option.mem_def, Option.some.injEq, forall_eq', List.map_append, List.map_singleton,
        List.append_cancel_left_eq]
      constructor
      · intro hdecode
        by_contra hshort
        rw [Framed.decodeAll_error (decode_short (Nat.lt_of_not_le hshort))] at hdecode
        cases hdecode
      · intro hlong
        have hm := m.decode_encode [] (by simpa [IsLong] using hlong)
        rw [List.append_nil] at hm
        rw [framed_decode.decodeAll_ok hm, List.drop_length]
        rfl

end Sent

open Sent in
/-- **Control plaintext is framed independently of chunking**, but for messages shorter than
a header. What was sent is what is decoded from any chunks of it, as long as no such message
comes last; an answer other than truncated stays; and truncated is the beginning of a
message, unless less than four bytes have a NUL in them behind or before something else. -/
theorem plaintext_framed_iff (ms : List Sent) (chunks : List Bytes) (bytes more : Bytes) :
    (chunks.flatten = ms.flatMap encode →
      ((chunks.foldl (feed ServerMessage.decode) ([], [])).1 = ms.map value ↔
        ∀ m ∈ ms.getLast?, m.IsLong)) ∧
    (∀ answer, ServerMessage.decode bytes = answer →
      (∀ context, answer ≠ .error (.truncated context)) →
        ServerMessage.decode (bytes ++ more) = answer) ∧
    ∀ context, ServerMessage.decode bytes = .error (.truncated context) →
      (ServerMessage.Begins bytes ↔ 4 ≤ bytes.length ∨ 0 ∉ bytes ∨ ∀ byte ∈ bytes, byte = 0) := by
  refine ⟨fun hchunks => ?_, fun answer h hanswer => ServerMessage.decode_append h hanswer more,
    fun context h => ServerMessage.begins_iff h⟩
  rw [ServerMessage.framed_decode.feed_chunks, hchunks]
  exact decodeAll_last ms

/-- A control message of one letter. -/
def oneLetter : Sent := .control ['A'] (by decide) (by decide)

/-- It has arrived, and the answer is that it is truncated. -/
theorem oneLetter_waits :
    [[0x41, 0]].flatten = [oneLetter].flatMap Sent.encode ∧
      ([[0x41, 0]].foldl (feed ServerMessage.decode) ([], [])).1 = [] ∧
        ([] : List ServerMessage) ≠ [oneLetter].map Sent.value ∧
      ServerMessage.decode [0x41, 0] = .error (.truncated "a message header") ∧
        ¬ServerMessage.Begins [0x41, 0] := by
  refine ⟨by decide, by decide, by decide, by decide, ?_⟩
  exact @ServerMessage.not_begins [0x41] [] (by decide) ⟨0x41, by decide⟩ (by decide)

end SynologyFilestation.Openvpn
