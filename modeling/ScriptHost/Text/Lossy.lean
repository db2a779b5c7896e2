/-! Bytes read as UTF-8 text. Every maximal piece that no encoding starts or
continues becomes one replacement character; well-formed text is read as it is. -/

namespace ScriptHost.Text

/-- A character whose last `left` bytes are still to come, the next of them
between `low` and `high`. -/
structure Pending where
  left : Nat
  low : UInt8
  high : UInt8
  code : Nat

inductive Lead
  | whole (c : Char)
  | more (p : Pending)
  | stray

/-- What a byte says at the start of a character. The second byte is confined
further after `E0`, `ED`, `F0` and `F4`: overlong forms and surrogates are refused. -/
def lead (b : UInt8) : Lead :=
  let bits (mask : Nat) := b.toNat % mask
  if b < 0x80 then .whole (Char.ofNat b.toNat)
  else if b < 0xC2 then .stray
  else if b < 0xE0 then .more ⟨1, 0x80, 0xBF, bits 32⟩
  else if b = 0xE0 then .more ⟨2, 0xA0, 0xBF, bits 16⟩
  else if b = 0xED then .more ⟨2, 0x80, 0x9F, bits 16⟩
  else if b < 0xF0 then .more ⟨2, 0x80, 0xBF, bits 16⟩
  else if b = 0xF0 then .more ⟨3, 0x90, 0xBF, bits 8⟩
  else if b < 0xF4 then .more ⟨3, 0x80, 0xBF, bits 8⟩
  else if b = 0xF4 then .more ⟨3, 0x80, 0x8F, bits 8⟩
  else .stray

def replacement : Char := '\ufffd'

/-- One byte after `pending`: the characters it completes or breaks off, and
what is pending next. -/
def readByte (pending : Option Pending) (b : UInt8) : List Char × Option Pending :=
  let fresh : List Char × Option Pending := match lead b with
    | .whole c => ([c], none)
    | .more p => ([], some p)
    | .stray => ([replacement], none)
  match pending with
  | none => fresh
  | some p =>
    if p.low ≤ b ∧ b ≤ p.high then
      let code := p.code * 64 + b.toNat % 64
      if p.left ≤ 1 then ([Char.ofNat code], none) else ([], some ⟨p.left - 1, 0x80, 0xBF, code⟩)
    else (replacement :: fresh.1, fresh.2)

def readBytes : Option Pending → List UInt8 → List Char
  | none, [] => []
  | some _, [] => [replacement]
  | pending, b :: bs =>
    let step := readByte pending b
    step.1 ++ readBytes step.2 bs

/-- The text of a byte string. -/
def ofBytes (bytes : ByteArray) : String :=
  match String.fromUTF8? bytes with
  | some s => s
  | none => String.ofList (readBytes none bytes.toList)

/-- The bytes in front of the first zero. -/
def beforeZero (bytes : ByteArray) : ByteArray :=
  if bytes.toList.contains 0 then ⟨(bytes.toList.takeWhile (· ≠ 0)).toArray⟩ else bytes

theorem ofBytes_toUTF8 (s : String) : ofBytes s.toUTF8 = s := by
  simp [ofBytes, String.fromUTF8?, String.toUTF8, String.fromUTF8, s.isValidUTF8]

end ScriptHost.Text
