import Mathlib.Data.List.DropRight
import Mathlib.Data.List.GetD
import RakkaInference.Core.ErrorWire
import RakkaInference.Machine.Radix
import RakkaInference.Machine.Slices

/-! The base64 codec of the audio types. The encoder works on groups of three bytes, the decoder on a
buffer of bits. -/
namespace RakkaInference.Base64
open Machine

def table : List Char :=
  ['A','B','C','D','E','F','G','H','I','J','K','L','M','N','O','P','Q','R','S','T','U','V','W','X','Y','Z',
   'a','b','c','d','e','f','g','h','i','j','k','l','m','n','o','p','q','r','s','t','u','v','w','x','y','z',
   '0','1','2','3','4','5','6','7','8','9','+','/']

/-- The entry of the table for the lower six bits. -/
def entry (n : UInt32) : Char := table.getD (n &&& 0x3f).toNat '='

/-- The characters for the exact chunks, and for the remainder. -/
def encodeChunks : List UInt8 → List Char
  | c0::c1::c2::input =>
    let n := ((c0.toUInt32 <<< 16) ||| (c1.toUInt32 <<< 8)) ||| c2.toUInt32
    entry (n >>> 18)::entry (n >>> 12)::entry (n >>> 6)::entry n::encodeChunks input
  | [r0,r1] =>
    let n := (r0.toUInt32 <<< 16) ||| (r1.toUInt32 <<< 8)
    [entry (n >>> 18),entry (n >>> 12),entry (n >>> 6),'=']
  | [r0] =>
    let n := r0.toUInt32 <<< 16
    [entry (n >>> 18),entry (n >>> 12),'=','=']
  | [] => []

def encode (input : List UInt8) : String := String.ofList (encodeChunks input)

/-- The bits of a character of the input. -/
def sextetOf (c : UInt8) : Option UInt8 :=
  if 65 ≤ c ∧ c ≤ 90 then some (c-65)
  else if 97 ≤ c ∧ c ≤ 122 then some (c-97+26)
  else if 48 ≤ c ∧ c ≤ 57 then some (c-48+52)
  else if c = 43 then some 62
  else if c = 47 then some 63
  else none

/-- The loop over the bytes of the input. -/
def decodeBytes : List UInt8 → List UInt8 → UInt32 → UInt32 → Except String (List UInt8)
  | [],out,_,_ => .ok out
  | c::input,out,buf,bits =>
    match sextetOf c with
    | none => .error "invalid base64 character"
    | some v =>
      let buf := (buf <<< 6) ||| v.toUInt32
      let bits := bits+6
      if 8 ≤ bits then
        decodeBytes input (out++[(buf >>> (bits-8)).toUInt8]) (buf &&& ((1 <<< (bits-8))-1)) (bits-8)
      else decodeBytes input out buf bits

/-- The input without the padding at its end. -/
def trimmed (input : String) : List Char := input.toList.rdropWhile (· = '=')

def decode (input : String) : Except String (List UInt8) := decodeBytes (utf8Bytes (trimmed input)) [] 0 0

/-- The field of bytes in a JSON value. -/
def serialize (b : List UInt8) : Json := .string (encode b)

def deserialize (j : Json) : Option (List UInt8) := j.asString.bind fun s => (decode s).toOption

/-! The encoding of RFC 4648: groups of three bytes are four groups of six bits. -/

/-- The groups of six bits, where the last one is filled up with zeros. -/
def sextets : List UInt8 → List ℕ
  | a::b::c::input =>
    a.toNat/4::(a.toNat%4*16+b.toNat/16)::(b.toNat%16*4+c.toNat/64)::c.toNat%64::sextets input
  | [a,b] => [a.toNat/4,a.toNat%4*16+b.toNat/16,b.toNat%16*4]
  | [a] => [a.toNat/4,a.toNat%4*16]
  | [] => []

/-- The number of padding characters for so many bytes. -/
def padding (n : ℕ) : ℕ := (3-n%3)%3

/-- The character of the alphabet for a group of six bits. -/
def sextetChar (n : ℕ) : Char := table.getD n '='

theorem sextets_lt (b : List UInt8) : ∀ d ∈ sextets b, d < 2^6 := by
  induction b using sextets.induct with
  | case1 a b c input ih =>
    have ha := a.toNat_lt
    have hb := b.toNat_lt
    have hc := c.toNat_lt
    simp only [sextets,List.mem_cons,forall_eq_or_imp]
    exact ⟨by omega,by omega,by omega,by omega,ih⟩
  | case2 a b =>
    have ha := a.toNat_lt
    have hb := b.toNat_lt
    simp only [sextets,List.mem_cons,forall_eq_or_imp,List.not_mem_nil,false_imp_iff,implies_true,and_true]
    exact ⟨by omega,by omega,by omega⟩
  | case3 a =>
    have ha := a.toNat_lt
    simp only [sextets,List.mem_cons,forall_eq_or_imp,List.not_mem_nil,false_imp_iff,implies_true,and_true]
    exact ⟨by omega,by omega⟩
  | case4 => exact nofun

/-- The groups hold the bits of the bytes, and zeros. -/
theorem regrouped_sextets (b : List UInt8) :
    Regrouped 6 8 (sextets b) (b.map UInt8.toNat) 0 (2*padding b.length) := by
  induction b using sextets.induct with
  | case1 a b c input ih =>
    have hlen : padding (a::b::c::input).length = padding input.length := by
      simp only [padding,List.length_cons]
      omega
    have hgroup : Regrouped 6 8 [a.toNat/4,a.toNat%4*16+b.toNat/16,b.toNat%16*4+c.toNat/64,c.toNat%64]
        [a.toNat,b.toNat,c.toNat] 0 0 := by
      refine ⟨?_,Nat.one_pos,rfl⟩
      simp only [numeral,List.reverse_cons,List.reverse_nil,List.nil_append,List.cons_append,Nat.ofDigits_cons,
        Nat.ofDigits_nil]
      omega
    rw [hlen]
    exact hgroup.append ih
  | case2 a b =>
    refine ⟨?_,Nat.two_pow_pos _,rfl⟩
    have hpad : padding [a,b].length = 1 := rfl
    simp only [hpad,numeral,sextets,List.map_cons,List.map_nil,List.reverse_cons,List.reverse_nil,List.nil_append,
      List.cons_append,Nat.ofDigits_cons,Nat.ofDigits_nil]
    omega
  | case3 a =>
    refine ⟨?_,Nat.two_pow_pos _,rfl⟩
    have hpad : padding [a].length = 2 := rfl
    simp only [hpad,numeral,sextets,List.map_cons,List.map_nil,List.reverse_cons,List.reverse_nil,List.nil_append,
      List.cons_append,Nat.ofDigits_cons,Nat.ofDigits_nil]
    omega
  | case4 => exact .nil 6 8

theorem bytes_lt (b : List UInt8) : ∀ e ∈ b.map UInt8.toNat, e < 2^8 := by
  intro e he
  obtain ⟨x,-,rfl⟩ := List.mem_map.mp he
  exact x.toNat_lt

/-! The encoder. -/

theorem shiftLeft_or {a b i : ℕ} (h : b < 2^i) : a <<< i ||| b = a*2^i+b := by
  rw [← Nat.shiftLeft_add_eq_or_of_lt h,Nat.shiftLeft_eq]

theorem entry_of_low {n : UInt32} {d : ℕ} (h : n.toNat%64 = d) : entry n = sextetChar d := by
  have hmask : (n &&& 0x3f).toNat = n.toNat%64 := by
    rw [UInt32.toNat_and]
    exact Nat.and_two_pow_sub_one_eq_mod n.toNat 6
  rw [entry,hmask,h,sextetChar]

theorem entry_of_shift {n k : UInt32} {d : ℕ} (hk : k.toNat < 32) (h : n.toNat/2^k.toNat%64 = d) :
    entry (n >>> k) = sextetChar d := by
  apply entry_of_low
  rw [UInt32.toNat_shiftRight,Nat.mod_eq_of_lt hk,Nat.shiftRight_eq_div_pow,h]

theorem toNat_chunk (c0 c1 c2 : UInt8) :
    (((c0.toUInt32 <<< 16) ||| (c1.toUInt32 <<< 8)) ||| c2.toUInt32).toNat =
      c0.toNat*65536+c1.toNat*256+c2.toNat := by
  have h0 := c0.toNat_lt
  have h1 := c1.toNat_lt
  have h2 := c2.toNat_lt
  have hc0 : (c0.toUInt32 <<< 16).toNat = c0.toNat <<< 16 := by
    rw [UInt32.toNat_shiftLeft,UInt8.toNat_toUInt32]
    apply Nat.mod_eq_of_lt
    change c0.toNat <<< 16 < 2^32
    rw [Nat.shiftLeft_eq]
    omega
  have hc1 : (c1.toUInt32 <<< 8).toNat = c1.toNat*2^8 := by
    rw [UInt32.toNat_shiftLeft,UInt8.toNat_toUInt32]
    change c1.toNat <<< 8 % 2^32 = _
    rw [Nat.shiftLeft_eq]
    apply Nat.mod_eq_of_lt
    omega
  rw [UInt32.toNat_or,UInt32.toNat_or,hc0,hc1,UInt8.toNat_toUInt32,shiftLeft_or (by omega)]
  have hhigh : c0.toNat*2^16+c1.toNat*2^8 = (c0.toNat*2^8+c1.toNat) <<< 8 := by
    rw [Nat.shiftLeft_eq]
    ring
  rw [hhigh,shiftLeft_or h2]
  ring

theorem toNat_pair (r0 r1 : UInt8) :
    ((r0.toUInt32 <<< 16) ||| (r1.toUInt32 <<< 8)).toNat = r0.toNat*65536+r1.toNat*256 := by
  have h := toNat_chunk r0 r1 0
  simpa using h

theorem toNat_single (r0 : UInt8) : (r0.toUInt32 <<< 16).toNat = r0.toNat*65536 := by
  have h := toNat_chunk r0 0 0
  simpa using h

/-- The four groups of an exact chunk. -/
theorem entries_chunk {n : UInt32} {c0 c1 c2 : ℕ} (hn : n.toNat = c0*65536+c1*256+c2) (h0 : c0 < 256)
    (h1 : c1 < 256) (h2 : c2 < 256) :
    entry (n >>> 18) = sextetChar (c0/4) ∧ entry (n >>> 12) = sextetChar (c0%4*16+c1/16) ∧
      entry (n >>> 6) = sextetChar (c1%16*4+c2/64) ∧ entry n = sextetChar (c2%64) := by
  refine ⟨entry_of_shift (by decide) ?_,entry_of_shift (by decide) ?_,entry_of_shift (by decide) ?_,
    entry_of_low ?_⟩
  · rw [hn]
    change _/2^18%64 = _
    omega
  · rw [hn]
    change _/2^12%64 = _
    omega
  · rw [hn]
    change _/2^6%64 = _
    omega
  · rw [hn]
    omega

/-- The encoder writes the groups of six bits, and the padding. -/
theorem encodeChunks_eq (b : List UInt8) :
    encodeChunks b = (sextets b).map sextetChar++List.replicate (padding b.length) '=' := by
  induction b using encodeChunks.induct with
  | case1 c0 c1 c2 input ih =>
    have hlen : padding (c0::c1::c2::input).length = padding input.length := by
      simp only [padding,List.length_cons]
      omega
    obtain ⟨e0,e1,e2,e3⟩ := entries_chunk (toNat_chunk c0 c1 c2) c0.toNat_lt c1.toNat_lt c2.toNat_lt
    rw [encodeChunks,e0,e1,e2,e3,ih,hlen]
    rfl
  | case2 r0 r1 =>
    have hn : ((r0.toUInt32 <<< 16) ||| (r1.toUInt32 <<< 8)).toNat = r0.toNat*65536+r1.toNat*256+0 := by
      rw [toNat_pair,Nat.add_zero]
    obtain ⟨e0,e1,e2,-⟩ := entries_chunk hn r0.toNat_lt r1.toNat_lt (by decide)
    rw [encodeChunks,e0,e1,e2]
    rfl
  | case3 r0 =>
    have hn : (r0.toUInt32 <<< 16).toNat = r0.toNat*65536+0*256+0 := by
      rw [toNat_single]
      ring
    obtain ⟨e0,e1,-,-⟩ := entries_chunk hn r0.toNat_lt (by decide) (by decide)
    rw [encodeChunks,e0,e1]
    rfl
  | case4 => rfl

/-! The decoder. -/

/-- The decoder knows the characters of the alphabet by their bytes. -/
theorem sextetOf_eq_some {c v : UInt8} (h : sextetOf c = some v) :
    c.toNat < 128 ∧ v.toNat < 2^6 ∧ sextetChar v.toNat = Char.ofNat c.toNat := by
  have hall : ∀ n < 256, ∀ v ∈ sextetOf (UInt8.ofNat n),
      n < 128 ∧ v.toNat < 64 ∧ sextetChar v.toNat = Char.ofNat n := by decide +kernel
  have hc := hall c.toNat c.toNat_lt v
  rw [UInt8.ofNat_toNat] at hc
  exact hc h

theorem sextetOf_sextetChar {d : ℕ} (h : d < 2^6) :
    (sextetChar d).toNat < 128 ∧ sextetOf (UInt8.ofNat (sextetChar d).toNat) = some (UInt8.ofNat d) ∧
      sextetChar d ≠ '=' := by
  have hall : ∀ d < 64, (sextetChar d).toNat < 128 ∧
      sextetOf (UInt8.ofNat (sextetChar d).toNat) = some (UInt8.ofNat d) ∧ sextetChar d ≠ '=' := by decide +kernel
  exact hall d h

theorem sextetOf_of_lead {c : UInt8} (h : 128 ≤ c.toNat) : sextetOf c = none := by
  cases hs : sextetOf c with
  | none => rfl
  | some v => exact absurd (sextetOf_eq_some hs).1 (by omega)

/-- A text whose bytes are all in the alphabet is written in it. -/
theorem chars_of_bytes {cs : List Char} {vs : List UInt8} (h : (utf8Bytes cs).map sextetOf = vs.map some) :
    cs = vs.map fun v => sextetChar v.toNat := by
  induction cs generalizing vs with
  | nil =>
    obtain rfl : vs = [] := by simpa [utf8Bytes] using h.symm
    rfl
  | cons c cs ih =>
    have hbytes : utf8Bytes (c::cs) = String.utf8EncodeChar c++utf8Bytes cs := rfl
    by_cases hc : c.toNat < 128
    · rw [hbytes,utf8EncodeChar_ascii c hc] at h
      cases vs with
      | nil => exact nomatch h
      | cons v vs =>
        obtain ⟨hv,hvs⟩ := List.cons.inj h
        have hchar := (sextetOf_eq_some hv).2.2
        rw [UInt8.toNat_ofNat',Nat.mod_eq_of_lt (by omega),Char.ofNat_toNat] at hchar
        rw [List.map_cons,hchar,← ih hvs]
    · obtain ⟨b,rest,hb,hlead⟩ := utf8EncodeChar_lead c (by omega)
      rw [hbytes,hb] at h
      cases vs with
      | nil => exact nomatch h
      | cons v vs =>
        have hnone := sextetOf_of_lead (c := b) (by omega)
        rw [(List.cons.inj h).1] at hnone
        exact nomatch hnone

theorem bytes_of_chars {ds : List ℕ} (h : ∀ d ∈ ds, d < 2^6) :
    (utf8Bytes (ds.map sextetChar)).map sextetOf = (ds.map UInt8.ofNat).map some := by
  induction ds with
  | nil => rfl
  | cons d ds ih =>
    obtain ⟨hascii,hsextet,-⟩ := sextetOf_sextetChar (h d List.mem_cons_self)
    have hbytes : utf8Bytes ((d::ds).map sextetChar) =
        String.utf8EncodeChar (sextetChar d)++utf8Bytes (ds.map sextetChar) := rfl
    rw [hbytes,utf8EncodeChar_ascii _ hascii,List.map_append,ih fun e he => h e (List.mem_cons_of_mem d he)]
    simp only [List.map_cons,List.map_nil,List.cons_append,List.nil_append,hsextet]

/-- The buffer after the bits of one more character. -/
theorem toNat_push {buf bits v : UInt32} (hbuf : buf.toNat < 2^bits.toNat) (hbits : bits.toNat < 8)
    (hv : v.toNat < 2^6) : ((buf <<< 6) ||| v).toNat = buf.toNat*2^6+v.toNat := by
  have hsmall : buf.toNat < 2^8 := hbuf.trans_le (Nat.pow_le_pow_right (by decide) hbits.le)
  have hshift : (buf <<< 6).toNat = buf.toNat <<< 6 := by
    rw [UInt32.toNat_shiftLeft]
    apply Nat.mod_eq_of_lt
    change buf.toNat <<< 6 < 2^32
    rw [Nat.shiftLeft_eq]
    omega
  rw [UInt32.toNat_or,hshift,shiftLeft_or hv]

/-- The byte that goes out. -/
theorem toNat_out {buf bits : UInt32} (hbits : bits.toNat < 8) (hbuf : buf.toNat < 2^(bits.toNat+8)) :
    (buf >>> bits).toUInt8.toNat = buf.toNat/2^bits.toNat := by
  have hlt : buf.toNat/2^bits.toNat < 2^8 := by
    apply Nat.div_lt_of_lt_mul
    rw [← pow_add]
    exact hbuf
  have hmod : bits.toNat%32 = bits.toNat := Nat.mod_eq_of_lt (by omega)
  rw [UInt32.toNat_toUInt8,UInt32.toNat_shiftRight,hmod,Nat.shiftRight_eq_div_pow,Nat.mod_eq_of_lt hlt]

/-- The bits that stay. -/
theorem toNat_kept {buf bits : UInt32} (hbits : bits.toNat < 8) :
    (buf &&& ((1 <<< bits)-1)).toNat = buf.toNat%2^bits.toNat := by
  have hpow : 2^bits.toNat < 2^32 := Nat.pow_lt_pow_right (by decide) (by omega)
  have hone : ((1 : UInt32) <<< bits).toNat = 2^bits.toNat := by
    rw [UInt32.toNat_shiftLeft,Nat.mod_eq_of_lt (b := 32) (by omega)]
    change 1 <<< bits.toNat % 2^32 = _
    rw [Nat.one_shiftLeft,Nat.mod_eq_of_lt hpow]
  have hmask : (((1 : UInt32) <<< bits)-1).toNat = 2^bits.toNat-1 := by
    rw [UInt32.toNat_sub_of_le]
    · rw [hone]
      rfl
    · rw [UInt32.le_iff_toNat_le,hone]
      exact Nat.two_pow_pos _
  rw [UInt32.toNat_and,hmask,Nat.and_two_pow_sub_one_eq_mod]

/-- The decoder puts out the bits of the characters in bytes, and keeps less than a byte. -/
theorem decodeBytes_ok {input out vs : List UInt8} {buf bits : UInt32} {ds : List ℕ}
    (h : Regrouped 6 8 ds (out.map UInt8.toNat) buf.toNat bits.toNat) (hbits : bits.toNat < 8)
    (hin : input.map sextetOf = vs.map some) :
    ∃ b rest r, decodeBytes input out buf bits = .ok b ∧ r < 8 ∧
      Regrouped 6 8 (ds++vs.map UInt8.toNat) (b.map UInt8.toNat) rest r := by
  induction input generalizing out vs buf bits ds with
  | nil =>
    obtain rfl : vs = [] := by simpa using hin.symm
    exact ⟨out,buf.toNat,bits.toNat,rfl,hbits,by simpa using h⟩
  | cons c input ih =>
    cases vs with
    | nil => exact nomatch hin
    | cons v vs =>
      obtain ⟨hv,hvs⟩ := List.cons.inj hin
      have hlt := (sextetOf_eq_some hv).2.1
      have hbuf := toNat_push (v := v.toUInt32) h.rest_lt hbits (by rwa [UInt8.toNat_toUInt32])
      rw [UInt8.toNat_toUInt32] at hbuf
      have hsix : (bits+6).toNat = bits.toNat+6 := by
        rw [UInt32.toNat_add]
        exact Nat.mod_eq_of_lt (by change bits.toNat+6 < 2^32; omega)
      have hpush := h.push hlt
      rw [← hbuf,← hsix] at hpush
      rw [List.map_cons,List.append_cons]
      simp only [decodeBytes,hv]
      split
      case isTrue hfull =>
        have hfull' : 8 ≤ bits.toNat+6 := by rw [← hsix]; exact UInt32.le_iff_toNat_le.mp hfull
        have hleft : (bits+6-8).toNat = bits.toNat+6-8 := by
          rw [UInt32.toNat_sub_of_le _ _ hfull,hsix]
          rfl
        have hr : (bits+6-8).toNat < 8 := by omega
        have hsum : (bits+6).toNat = (bits+6-8).toNat+8 := by omega
        rw [hsum] at hpush
        have htake := hpush.take
        rw [← toNat_kept hr,← toNat_out hr hpush.rest_lt] at htake
        apply ih _ hr hvs
        simpa using htake
      case isFalse hroom =>
        apply ih hpush _ hvs
        rw [UInt32.le_iff_toNat_le] at hroom
        exact Nat.lt_of_not_le hroom

/-- Any other character is an error. -/
theorem decodeBytes_error {input out : List UInt8} {buf bits : UInt32} (h : ∃ c ∈ input, sextetOf c = none) :
    decodeBytes input out buf bits = .error "invalid base64 character" := by
  induction input generalizing out buf bits with
  | nil =>
    obtain ⟨c,hc,-⟩ := h
    exact nomatch hc
  | cons c input ih =>
    cases hc : sextetOf c with
    | none => simp only [decodeBytes,hc]
    | some v =>
      have hrest : ∃ c ∈ input, sextetOf c = none := by
        obtain ⟨x,hx,hnone⟩ := h
        obtain rfl | hx := List.mem_cons.mp hx
        · rw [hc] at hnone
          exact nomatch hnone
        · exact ⟨x,hx,hnone⟩
      simp only [decodeBytes,hc,ih hrest]
      split <;> rfl

/-! The two together. -/

/-- The padding that an input has at its end. -/
def paddingOf (input : String) : ℕ := (input.toList.rtakeWhile (· = '=')).length

theorem paddingOf_spec (input : String) :
    input.toList = trimmed input++List.replicate (paddingOf input) '=' := by
  have hall : input.toList.rtakeWhile (· = '=') = List.replicate (paddingOf input) '=' := by
    apply List.eq_replicate_iff.mpr ⟨rfl,?_⟩
    intro c hc
    simpa using List.mem_rtakeWhile_imp hc
  rw [← hall]
  exact List.rdropWhile_append_rtakeWhile.symm

/-- A group can be read off its character. -/
theorem sextetChar_eq {d e : ℕ} (hd : d < 2^6) (he : e < 2^6) (h : sextetChar d = sextetChar e) : d = e := by
  have hread := (sextetOf_sextetChar hd).2.1
  rw [h,(sextetOf_sextetChar he).2.1] at hread
  have hbyte := congrArg UInt8.toNat (Option.some.inj hread)
  rw [UInt8.toNat_ofNat',UInt8.toNat_ofNat',Nat.mod_eq_of_lt (by omega),Nat.mod_eq_of_lt (by omega)] at hbyte
  exact hbyte.symm

/-- What is written in the alphabet and padded is trimmed to what it was. -/
theorem trimmed_padded {ds : List ℕ} (h : ∀ d ∈ ds, d < 2^6) (n : ℕ) :
    trimmed (String.ofList (ds.map sextetChar++List.replicate n '=')) = ds.map sextetChar := by
  rw [trimmed,String.toList_ofList]
  induction n with
  | zero =>
    rw [List.replicate_zero,List.append_nil,List.rdropWhile_eq_self_iff]
    intro hne hlast
    obtain ⟨d,hd,heq⟩ := List.mem_map.mp (List.getLast_mem hne)
    rw [← heq,decide_eq_true_eq] at hlast
    exact (sextetOf_sextetChar (h d hd)).2.2 hlast
  | succ n ih =>
    rw [List.replicate_succ',← List.append_assoc,List.rdropWhile_concat_pos _ _ _ (by simp),ih]

theorem encode_eq (b : List UInt8) :
    encode b = String.ofList ((sextets b).map sextetChar++List.replicate (padding b.length) '=') := by
  rw [encode,encodeChunks_eq]

theorem trimmed_encode (b : List UInt8) : trimmed (encode b) = (sextets b).map sextetChar := by
  rw [encode_eq]
  exact trimmed_padded (sextets_lt b) (padding b.length)

/-- An input in the alphabet is decoded to the bytes that it holds. -/
theorem decode_ok {input : String} {ds : List ℕ} (hds : ∀ d ∈ ds, d < 2^6) (h : trimmed input = ds.map sextetChar) :
    ∃ b rest r, decode input = .ok b ∧ r < 8 ∧ Regrouped 6 8 ds (b.map UInt8.toNat) rest r := by
  have hbytes := bytes_of_chars hds
  rw [← h] at hbytes
  have hstart : Regrouped 6 8 ([] : List ℕ) (([] : List UInt8).map UInt8.toNat) (0 : UInt32).toNat
      (0 : UInt32).toNat := .nil 6 8
  obtain ⟨b,rest,r,hb,hr,hregrouped⟩ := decodeBytes_ok hstart (by decide) hbytes
  have hsame : (ds.map UInt8.ofNat).map UInt8.toNat = ds := by
    rw [List.map_map]
    refine (List.map_congr_left ?_).trans (List.map_id ds)
    intro d hd
    have hlt := hds d hd
    rw [Function.comp_apply,UInt8.toNat_ofNat',Nat.mod_eq_of_lt (by omega),id]
  rw [List.nil_append,hsame] at hregrouped
  exact ⟨b,rest,r,hb,hr,hregrouped⟩

/-- The decoder reads the encoder's output. -/
theorem decode_encode (b : List UInt8) : decode (encode b) = .ok b := by
  obtain ⟨b',rest,r,hb,hr,hregrouped⟩ := decode_ok (sextets_lt b) (trimmed_encode b)
  have hpad : 2*padding b.length < 8 := by
    unfold padding
    omega
  obtain ⟨hsame,-,-⟩ := hregrouped.unique (regrouped_sextets b) hr hpad (bytes_lt b') (bytes_lt b)
  have hinj : Function.Injective UInt8.toNat := fun _ _ => UInt8.toNat_inj.mp
  rw [hb,List.map_injective_iff.mpr hinj hsame]

theorem length_encode (b : List UInt8) : (encode b).length = 4*((b.length+2)/3) := by
  have hbits := (regrouped_sextets b).bits_eq
  rw [encode_eq,String.length_ofList,List.length_append,List.length_map,List.length_replicate]
  rw [List.length_map] at hbits
  unfold padding at hbits ⊢
  omega

theorem deserialize_serialize (b : List UInt8) : deserialize (serialize b) = some b := by
  simp [deserialize,serialize,Json.asString,decode_encode,Except.toOption]

/-- The encoding is the one of RFC 4648, and the decoder reads it. -/
theorem base64_round_trip (b : List UInt8) :
    decode (encode b) = .ok b ∧ (encode b).length = 4*((b.length+2)/3) ∧
      encode b = String.ofList ((sextets b).map sextetChar++List.replicate (padding b.length) '=') :=
  ⟨decode_encode b,length_encode b,encode_eq b⟩

/-- Whole groups of four characters, with the padding that belongs to them, and zeros where an
encoding has no bits. -/
structure Canonical (input : String) : Prop where
  whole : input.length%4 = 0
  padded : paddingOf input ≤ 2
  zeros : ∀ d < 64, (trimmed input).getLast? = some (sextetChar d) → 4^paddingOf input ∣ d

theorem mem_table {c : Char} (h : c ∈ table) : ∃ d < 2^6, c = sextetChar d := by
  obtain ⟨d,hd,rfl⟩ := List.mem_iff_getElem.mp h
  exact ⟨d,hd,(List.getD_eq_getElem table '=' hd).symm⟩

theorem sextetChar_mem {d : ℕ} (h : d < 2^6) : sextetChar d ∈ table := by
  have hd : d < table.length := h
  rw [sextetChar,List.getD_eq_getElem table '=' hd]
  exact List.getElem_mem hd

/-- The low bits of a number are those of its last digit. -/
theorem dvd_numeral_iff {ds : List ℕ} {d p : ℕ} (hp : p ≤ 3) :
    4^p ∣ numeral (2^6) (ds++[d]) ↔ 4^p ∣ d := by
  rw [numeral_snoc]
  apply Nat.dvd_add_right
  apply dvd_mul_of_dvd_right
  exact pow_dvd_pow 4 hp

/-- The bits that an input holds beyond its bytes, when it is canonical. -/
theorem Canonical.rest {input : String} {b : List UInt8} {ds : List ℕ} {rest r : ℕ} (hcanonical : Canonical input)
    (hds : ∀ d ∈ ds, d < 2^6) (h : trimmed input = ds.map sextetChar)
    (hlen : input.length = ds.length+paddingOf input) (hr : r < 8)
    (hregrouped : Regrouped 6 8 ds (b.map UInt8.toNat) rest r) : rest = 0 ∧ r = 2*paddingOf input := by
  obtain ⟨hwhole,hpadded,hzeros⟩ := hcanonical
  have hbits := hregrouped.bits_eq
  have hr2 : r = 2*paddingOf input := by omega
  refine ⟨?_,hr2⟩
  have hdvd : 2^r ∣ numeral (2^6) ds := by
    rw [hr2,pow_mul]
    obtain rfl | ⟨init,d,rfl⟩ := List.eq_nil_or_concat' ds
    · exact dvd_zero _
    · apply (dvd_numeral_iff (by omega)).mpr
      apply hzeros d (hds d (by simp))
      rw [h,List.map_append,List.map_cons,List.map_nil,List.getLast?_concat]
  rw [hregrouped.numeral_eq,Nat.dvd_add_right (Nat.dvd_mul_left _ _)] at hdvd
  exact Nat.eq_zero_of_dvd_of_lt hdvd hregrouped.rest_lt

theorem paddingOf_encode (b : List UInt8) : paddingOf (encode b) = padding b.length := by
  have hspec := paddingOf_spec (encode b)
  rw [trimmed_encode,encode_eq,String.toList_ofList,← encode_eq] at hspec
  have hlen := congrArg List.length (List.append_cancel_left hspec)
  rw [List.length_replicate,List.length_replicate] at hlen
  exact hlen.symm

/-- Every encoding is canonical. -/
theorem canonical_encode (b : List UInt8) : Canonical (encode b) := by
  constructor
  case whole =>
    rw [length_encode]
    exact Nat.mul_mod_right 4 _
  case padded =>
    rw [paddingOf_encode]
    unfold padding
    omega
  case zeros =>
    intro d hd hlast
    rw [trimmed_encode,List.getLast?_map,Option.map_eq_some_iff] at hlast
    obtain ⟨e,he,hchar⟩ := hlast
    obtain ⟨init,hinit⟩ := List.getLast?_eq_some_iff.mp he
    have hlt := sextets_lt b e (by simp [hinit])
    obtain rfl := sextetChar_eq hlt hd hchar
    have hnumeral := (regrouped_sextets b).numeral_eq
    rw [hinit,Nat.add_zero,pow_mul,← paddingOf_encode] at hnumeral
    apply (dvd_numeral_iff (p := paddingOf (encode b)) _).mp
    · rw [hnumeral]
      exact Nat.dvd_mul_left _ _
    · rw [paddingOf_encode]
      unfold padding
      omega

/-- What is decoded from an input is encoded as that input, if it is canonical and in no other case. -/
theorem canonical_iff {input : String} {b : List UInt8} {ds : List ℕ} {rest r : ℕ} (hds : ∀ d ∈ ds, d < 2^6)
    (h : trimmed input = ds.map sextetChar) (hr : r < 8) (hregrouped : Regrouped 6 8 ds (b.map UInt8.toNat) rest r) :
    encode b = input ↔ Canonical input := by
  constructor
  · intro heq
    rw [← heq]
    exact canonical_encode b
  · intro hcanonical
    have hspec := paddingOf_spec input
    rw [h] at hspec
    have hlen : input.length = ds.length+paddingOf input := by
      rw [← String.length_toList,hspec,List.length_append,List.length_map,List.length_replicate]
    obtain ⟨rfl,rfl⟩ := hcanonical.rest hds h hlen hr hregrouped
    have hpadding : padding b.length = paddingOf input := by
      have hbits := hregrouped.bits_eq
      have hpadded := hcanonical.padded
      rw [List.length_map] at hbits
      unfold padding
      omega
    have hb := regrouped_sextets b
    rw [hpadding] at hb
    obtain rfl := hregrouped.unique_digits hb (by decide) hds (sextets_lt b)
    rw [← String.toList_inj,encode_eq,String.toList_ofList,hspec,hpadding]

theorem exists_sextets {cs : List Char} (h : ∀ c ∈ cs, c ∈ table) :
    ∃ ds : List ℕ, (∀ d ∈ ds, d < 2^6) ∧ cs = ds.map sextetChar := by
  induction cs with
  | nil => exact ⟨[],nofun,rfl⟩
  | cons c cs ih =>
    obtain ⟨hc,hcs⟩ := List.forall_mem_cons.mp h
    obtain ⟨d,hd,rfl⟩ := mem_table hc
    obtain ⟨ds,hds,rfl⟩ := ih hcs
    exact ⟨d::ds,List.forall_mem_cons.mpr ⟨hd,hds⟩,rfl⟩

/-- What is not in the alphabet is not decoded. -/
theorem decode_error {input : String} (h : ∃ c ∈ trimmed input, c ∉ table) :
    decode input = .error "invalid base64 character" := by
  apply decodeBytes_error
  by_contra hall
  obtain ⟨vs,hvs⟩ : ∃ vs : List UInt8, (utf8Bytes (trimmed input)).map sextetOf = vs.map some := by
    refine ⟨(utf8Bytes (trimmed input)).map fun c => (sextetOf c).getD 0,?_⟩
    rw [List.map_map]
    apply List.map_congr_left
    intro c hc
    cases hs : sextetOf c with
    | none => exact absurd ⟨c,hc,hs⟩ hall
    | some v => rw [Function.comp_apply,hs,Option.getD_some]
  obtain ⟨c,hc,hout⟩ := h
  rw [chars_of_bytes hvs] at hc
  obtain ⟨v,hv,rfl⟩ := List.mem_map.mp hc
  have hmem := List.mem_map_of_mem (f := some) hv
  rw [← hvs] at hmem
  obtain ⟨x,-,hx⟩ := List.mem_map.mp hmem
  exact hout (sextetChar_mem (sextetOf_eq_some hx).2.1)

/-- The decoder accepts encodings only where an input in the alphabet has whole groups, their padding
and no stray bits. -/
theorem decode_only_encodings_iff (input : String) :
    (∀ b, decode input = .ok b → encode b = input) ↔ ((∀ c ∈ trimmed input, c ∈ table) → Canonical input) := by
  by_cases halphabet : ∀ c ∈ trimmed input, c ∈ table
  · obtain ⟨ds,hds,htrimmed⟩ := exists_sextets halphabet
    obtain ⟨b,rest,r,hb,hr,hregrouped⟩ := decode_ok hds htrimmed
    rw [forall_prop_of_true halphabet,← canonical_iff hds htrimmed hr hregrouped]
    constructor
    · intro hall
      exact hall b hb
    · intro heq b' hb'
      obtain rfl := Except.ok.inj (hb.symm.trans hb')
      exact heq
  · have herror := decode_error (by simpa using halphabet)
    refine iff_of_true ?_ fun hall => absurd hall halphabet
    intro b hb
    exact nomatch herror.symm.trans hb

/-- Truncated input, padding alone, missing padding and stray bits are all accepted. -/
theorem decode_accepts_others :
    decode "Q" = .ok [] ∧ decode "====" = .ok [] ∧ decode "QQ" = .ok [65] ∧ decode "QR==" = .ok [65] ∧
      encode [65] = "QQ==" ∧ ¬ ∀ input b, decode input = .ok b → encode b = input := by
  have htruncated : decode "Q" = .ok [] := by decide +kernel
  refine ⟨htruncated,by decide +kernel,by decide +kernel,by decide +kernel,by decide +kernel,?_⟩
  intro hall
  exact absurd (hall "Q" [] htruncated) (by decide +kernel)

end RakkaInference.Base64
