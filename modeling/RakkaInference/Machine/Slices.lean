import Mathlib.Algebra.Ring.Nat
import Mathlib.Data.List.Basic

/-! Slices of bytes, and of strings by the bytes of their encoding, which have to start at a character. -/
namespace Machine

/-- No slice is longer than an address can be. -/
structure Bytes where
  bytes : List UInt8
  fits : bytes.length < 2^63

/-- A sum of positions, if it is one. -/
def checkedAdd (a b : ℕ) : Option ℕ := if a+b < 2^64 then some (a+b) else none

/-- The slice `data[start..stop]`; there is none where it is out of range. -/
def slice (data : List UInt8) (start stop : ℕ) : Option (List UInt8) :=
  if start ≤ stop ∧ stop ≤ data.length then some ((data.drop start).take (stop-start)) else none

/-- The number of bytes of the UTF-8 encoding. -/
def byteLen (s : String) : ℕ := (s.toList.map Char.utf8Size).sum

/-- What is left after the first bytes, if they are whole characters. -/
def dropChars : List Char → ℕ → Option (List Char)
  | cs,0 => some cs
  | [],_+1 => none
  | c::cs,n+1 => if c.utf8Size ≤ n+1 then dropChars cs (n+1-c.utf8Size) else none

/-- The slice `s[n..]`; there is none when `n` is not at a character. -/
def sliceFrom (s : String) (n : ℕ) : Option String := (dropChars s.toList n).map String.ofList

theorem byteLen_append (s t : String) : byteLen (s++t) = byteLen s+byteLen t := by
  simp [byteLen]

theorem dropChars_append (cs ds : List Char) : dropChars (cs++ds) (cs.map Char.utf8Size).sum = some ds := by
  induction cs with
  | nil => simp [dropChars]
  | cons c cs ih =>
    have hpos : 0 < c.utf8Size := Char.utf8Size_pos c
    rw [List.map_cons,List.sum_cons,List.cons_append]
    obtain ⟨n,hn⟩ : ∃ n, c.utf8Size+(cs.map Char.utf8Size).sum = n+1 := ⟨_,(Nat.succ_pred (by omega)).symm⟩
    have hrest : n+1-c.utf8Size = (cs.map Char.utf8Size).sum := by omega
    rw [hn,dropChars,if_pos (by omega),hrest,ih]

/-- A slice that starts where a first part ends is the rest. -/
theorem sliceFrom_append (s t : String) : sliceFrom (s++t) (byteLen s) = some t := by
  rw [sliceFrom,byteLen,String.toList_append,dropChars_append]
  simp

theorem eq_empty_of_byteLen (s : String) (h : byteLen s = 0) : s = "" := by
  have hnil : s.toList = [] := by
    cases hs : s.toList with
    | nil => rfl
    | cons c cs =>
      have hpos : 0 < c.utf8Size := Char.utf8Size_pos c
      simp only [byteLen,hs,List.map_cons,List.sum_cons] at h
      omega
  simpa using hnil

/-- The number of bytes that a first byte announces. -/
def utf8CharWidth (b : UInt8) : ℕ :=
  if b < 0x80 then 1
  else if 0xc2 ≤ b ∧ b ≤ 0xdf then 2
  else if 0xe0 ≤ b ∧ b ≤ 0xef then 3
  else if 0xf0 ≤ b ∧ b ≤ 0xf4 then 4
  else 0

def isContinuation (b : UInt8) : Bool := 0x80 ≤ b && b ≤ 0xbf

/-- The second byte may follow the first: there is no longer encoding than needed, no surrogate, and
nothing beyond the last code point. -/
def maySecond (first second : UInt8) : Bool :=
  isContinuation second && (first != 0xe0 || 0xa0 ≤ second) && (first != 0xed || second ≤ 0x9f) &&
    (first != 0xf0 || 0x90 ≤ second) && (first != 0xf4 || second ≤ 0x8f)

/-- How many bytes from the first one on are those of one character, as far as they go. -/
def utf8Valid (b : UInt8) (bs : List UInt8) : ℕ :=
  match bs.take (utf8CharWidth b-1) with
  | [] => 1
  | c::cs => if maySecond b c then 2+(cs.takeWhile isContinuation).length else 1

def decodeChar (b : UInt8) (cs : List UInt8) : Char :=
  let high := if b < 0x80 then b.toNat else b.toNat%2^(6-cs.length)
  Char.ofNat (cs.foldl (fun n c => n*64+c.toNat%64) high)

/-- Bytes that do not make a character are replaced by one that stands for them. -/
def lossyChars : ℕ → List UInt8 → List Char
  | 0,_ => []
  | _,[] => []
  | n+1,b::bs =>
    let k := utf8Valid b bs
    let c := if k = utf8CharWidth b then decodeChar b (bs.take (k-1)) else Char.ofNat 0xfffd
    c::lossyChars n (bs.drop (k-1))

def fromUtf8Lossy (bs : List UInt8) : String := String.ofList (lossyChars bs.length bs)

/-- The bytes of the encoding. -/
def utf8Bytes (cs : List Char) : List UInt8 := cs.flatMap String.utf8EncodeChar

theorem utf8EncodeChar_ascii (c : Char) (h : c.toNat < 128) : String.utf8EncodeChar c = [UInt8.ofNat c.toNat] := by
  unfold String.utf8EncodeChar
  exact if_pos (by change c.toNat ≤ 127; omega)

/-- The encoding of any other character starts with a byte that is not the one of an ASCII character. -/
theorem utf8EncodeChar_lead (c : Char) (h : 128 ≤ c.toNat) :
    ∃ b rest, String.utf8EncodeChar c = b::rest ∧ 192 ≤ b.toNat := by
  unfold String.utf8EncodeChar
  have hlow : ¬ c.val.toNat ≤ 0x7f := by
    change ¬ c.toNat ≤ 127
    omega
  rw [if_neg hlow]
  split
  · exact ⟨_,_,rfl,by rw [UInt8.toNat_ofNat']; omega⟩
  · split
    · exact ⟨_,_,rfl,by rw [UInt8.toNat_ofNat']; omega⟩
    · exact ⟨_,_,rfl,by rw [UInt8.toNat_ofNat']; omega⟩

end Machine
