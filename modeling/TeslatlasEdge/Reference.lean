/-
Module: TeslatlasEdge.Reference
Purpose: A concrete host on which the model runs: SHA-256 as the digest, and canonical JSON text in
  the layout `serde_jcs` writes.
Trusted boundary: human-reviewed.  Canonical text is exact for values whose integers lie within 2^53
  and whose keys hold no character outside the basic plane; numbers that are not integers are
  written by the given printer.
Main exports: canonicalText, referenceHost, sampleEnvelope
-/
import TeslatlasEdge.Lib.Sha256
import TeslatlasEdge.Protocol

namespace TeslatlasEdge

/-- One character of a JSON string. -/
def escapeChar (c : Char) : Str :=
  if c = '"' then ['\\', '"']
  else if c = '\\' then ['\\', '\\']
  else if c = '\n' then ['\\', 'n']
  else if c = '\r' then ['\\', 'r']
  else if c = '\t' then ['\\', 't']
  else if c.toNat = 8 then ['\\', 'b']
  else if c.toNat = 12 then ['\\', 'f']
  else if c.toNat < 32 then
    ['\\', 'u', '0', '0', hexDigit (c.toNat / 16), hexDigit (c.toNat % 16)]
  else [c]

def quoted (s : Str) : Str := '"' :: s.flatMap escapeChar ++ ['"']

def decimal : Int → Str
  | .ofNat n => Nat.toDigits 10 n
  | .negSucc n => '-' :: Nat.toDigits 10 (n + 1)

mutual

/-- Compact text with the members of every object ordered by key. -/
def canonicalText (printFloat : F64 → Str) : Value → Str
  | .null => "null".toList
  | .bool true => "true".toList
  | .bool false => "false".toList
  | .int n => decimal n
  | .float x => printFloat x
  | .str s => quoted s
  | .arr items => '[' :: List.intercalate [','] (canonicalItems printFloat items) ++ [']']
  | .obj fields =>
      let members := (canonicalMembers printFloat fields).insertionSort fun a b => a.1 ≤ b.1
      '{' :: List.intercalate [','] (members.map fun member =>
        quoted member.1 ++ ':' :: member.2) ++ ['}']

def canonicalItems (printFloat : F64 → Str) : List Value → List Str
  | [] => []
  | item :: items => canonicalText printFloat item :: canonicalItems printFloat items

def canonicalMembers (printFloat : F64 → Str) : List (Str × Value) → List (Str × Str)
  | [] => []
  | (key, value) :: fields =>
      (key, canonicalText printFloat value) :: canonicalMembers printFloat fields

end

/-- The host with a given float codec. -/
def referenceHost (codec : FloatCodec) : Host :=
  { sha256 := fun message => ⟨Lib.Sha256.digest message, Lib.Sha256.length_digest message⟩
    jcs := fun value => Str.bytes (canonicalText codec.print value)
    codec := codec }

/-- A codec for payloads without non-integer numbers. -/
def integerCodec : FloatCodec := { print := fun _ => "0.0".toList, parse := fun _ => 0 }

/-- A vehicle-data envelope with an empty payload. -/
def sampleEnvelope (txid : String) : Envelope :=
  { version := 1
    vin := "5YJ3E1EA7KF000001".toList
    txid := txid.toList
    txType := "vehicle_data".toList
    receivedAtMs := ⟨1800000000000, by omega⟩
    timestampMs := ⟨1800000000000, by omega⟩
    payload := .obj []
    deviceClientVersion := none
    firmwareVersion := none }

end TeslatlasEdge
