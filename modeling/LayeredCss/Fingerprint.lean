/-!
# Fingerprints of sources

A fingerprint is a hash of 64 bits of a text: its bytes are folded to one word sixteen at a time,
and the word and the length are mixed by multiplication.  Equal texts have equal fingerprints; the
converse holds as far as the hash goes.
-/

namespace LayeredCss

structure Fingerprint where
  word : UInt64
  deriving DecidableEq, Repr

namespace Fingerprint

def seed₁ : UInt64 := 0x243f6a8885a308d3
def seed₂ : UInt64 := 0x13198a2e03707344

/-- Keeps blocks of zeros from collapsing the product. -/
def guard : UInt64 := 0xa4093822299f31d0

/-- The factor that mixes a word into a hash. -/
def factor : UInt64 := 0xf1357aea2e62a9c5

/-- The two halves of the product of 128 bits, folded together. -/
def foldedProduct (x y : UInt64) : UInt64 :=
  let full := x.toNat * y.toNat
  UInt64.ofNat full ^^^ UInt64.ofNat (full / UInt64.size)

/-- The number that bytes write, the least significant first. -/
def littleEndian (bytes : List UInt8) : UInt64 :=
  UInt64.ofNat (bytes.foldr (fun b n => n * 256 + b.toNat) 0)

/-- Folds sixteen bytes at a time into the two words, as long as more than sixteen are left. -/
def foldBlocks (s₁ s₂ : UInt64) : (blocks : Nat) → List UInt8 → UInt64 × UInt64
  | 0, _ => (s₁, s₂)
  | blocks + 1, bytes =>
    let x := littleEndian (bytes.take 8)
    let y := littleEndian ((bytes.drop 8).take 8)
    foldBlocks s₂ (foldedProduct (s₁ ^^^ x) (guard ^^^ y)) blocks (bytes.drop 16)

/-- The last bytes of a list, `n` of them. -/
def last (n : Nat) (bytes : List UInt8) : List UInt8 := bytes.drop (bytes.length - n)

/-- Bytes folded to one word. -/
def foldBytes (bytes : List UInt8) : UInt64 :=
  let n := bytes.length
  let (s₁, s₂) :=
    if n ≤ 16 then
      if 8 ≤ n then
        (seed₁ ^^^ littleEndian (bytes.take 8), seed₂ ^^^ littleEndian (last 8 bytes))
      else if 4 ≤ n then
        (seed₁ ^^^ littleEndian (bytes.take 4), seed₂ ^^^ littleEndian (last 4 bytes))
      else if 0 < n then
        (seed₁ ^^^ littleEndian (bytes.take 1),
          seed₂ ^^^ littleEndian [bytes.getD (n / 2) 0, bytes.getD (n - 1) 0])
      else (seed₁, seed₂)
    else
      let (s₁, s₂) := foldBlocks seed₁ seed₂ ((n - 1) / 16) bytes
      let tail := last 16 bytes
      (s₁ ^^^ littleEndian (tail.take 8), s₂ ^^^ littleEndian (tail.drop 8))
  foldedProduct s₁ s₂ ^^^ UInt64.ofNat n

/-- Mixes a word into a hash. -/
def mix (hash word : UInt64) : UInt64 := (hash + word) * factor

/-- The fingerprint of a text. -/
def of (source : String) : Fingerprint :=
  let bytes := source.toUTF8.toList
  let hash := mix (mix 0 (foldBytes bytes)) (UInt64.ofNat bytes.length)
  ⟨hash <<< 26 ||| hash >>> 38⟩

end Fingerprint

end LayeredCss
