import StyleBatch.Program.Reading

/-!
# Base 64

Three bytes are written as four digits of six bits; `=` fills up the last four.
-/

namespace StyleBatch.Base64

def digits : Array UInt8 :=
  (Program.ascii
    "ABCDEFGHIJKLMNOPQRSTUVWXYZabcdefghijklmnopqrstuvwxyz0123456789+/").toArray

def digit (n : Nat) : UInt8 :=
  digits.getD (n % 64) 0

def fillByte : UInt8 := 61

def encode : Bytes → Bytes
  | a :: b :: c :: rest =>
    let n := a.toNat * 65536 + b.toNat * 256 + c.toNat
    digit (n / 262144) :: digit (n / 4096) :: digit (n / 64) :: digit n :: encode rest
  | [a, b] =>
    let n := a.toNat * 65536 + b.toNat * 256
    [digit (n / 262144), digit (n / 4096), digit (n / 64), fillByte]
  | [a] => [digit (a.toNat * 16 / 64), digit (a.toNat * 16), fillByte, fillByte]
  | [] => []

def value? (b : UInt8) : Option Nat :=
  digits.toList.findIdx? (· == b)

/-- The bytes of digits, and whether all of them could be read. -/
def decode : Bytes → Bytes × Bool
  | [] => ([], true)
  | a :: b :: c :: d :: rest =>
    match value? a, value? b, value? c, value? d with
    | some a, some b, some c, some d =>
      let n := a * 262144 + b * 4096 + c * 64 + d
      let (bytes, good) := decode rest
      (UInt8.ofNat (n / 65536) :: UInt8.ofNat (n / 256) :: UInt8.ofNat n :: bytes, good)
    | some a, some b, some c, none =>
      let n := a * 262144 + b * 4096 + c * 64
      ([UInt8.ofNat (n / 65536), UInt8.ofNat (n / 256)], d == fillByte && rest.isEmpty)
    | some a, some b, none, _ =>
      ([UInt8.ofNat (a * 4 + b / 16)], c == fillByte && d == fillByte && rest.isEmpty)
    | _, _, _, _ => ([], false)
  | [a, b, c] =>
    match value? a, value? b, value? c with
    | some a, some b, some c =>
      let n := a * 262144 + b * 4096 + c * 64
      ([UInt8.ofNat (n / 65536), UInt8.ofNat (n / 256)], false)
    | some a, some b, none => ([UInt8.ofNat (a * 4 + b / 16)], false)
    | _, _, _ => ([], false)
  | [a, b] =>
    match value? a, value? b with
    | some a, some b => ([UInt8.ofNat (a * 4 + b / 16)], false)
    | _, _ => ([], false)
  | [_] => ([], false)

/-- Lines of so many bytes; `fuel` bounds their number. -/
def wrap (width : Nat) : Nat → Bytes → Bytes
  | 0, bytes => bytes
  | _ + 1, [] => []
  | fuel + 1, bytes => bytes.take width ++ [Bytes.lineFeed] ++ wrap width fuel (bytes.drop width)

def forms : List Program.OptionForm :=
  [⟨'d', false, "decode"⟩, ⟨'i', false, "ignore-garbage"⟩, ⟨'w', true, "wrap"⟩]

/-- Writes bytes as digits in lines, or reads such digits. -/
def base64 : Program :=
  Program.withOptions 1 forms fun parsed p =>
    match parsed.operands with
    | _ :: extra :: _ => p.misuse 1 ("extra operand " ++ Program.quoteName extra)
    | names =>
      match Program.number? ((parsed.value? 'w').getD "76") with
      | none =>
        p.complain 1 ("invalid wrap size: " ++ Program.quoteName ((parsed.value? 'w').getD []))
      | some width =>
        if parsed.has 'd' then
          let kept := fun (b : UInt8) =>
            if parsed.has 'i' then (value? b).isSome || b == fillByte else b != Bytes.lineFeed
          let decoded := fun (bytes : Bytes) => decode (bytes.filter kept)
          let done := Program.filtering names (fun bytes => (decoded bytes).1) p
          let bad := (Program.filtering names (fun bytes =>
            if (decoded bytes).2 then [] else [0]) p).output
          if bad.isEmpty then done
          else { done with exit := .code 1, errors := (p.complain 1 "invalid input").errors }
        else
          Program.filtering names (fun bytes =>
            let encoded := encode bytes
            if width = 0 then encoded else wrap width encoded.length encoded) p

end StyleBatch.Base64
