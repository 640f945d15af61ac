import LearningMuduo.Logging.LogStream
import Mathlib.Data.Fin.VecNotation

/-! Socket addresses and the texts that name them. -/
namespace LearningMuduo.Socket
open Library Logging

/-- A `sockaddr_in`, with the bytes of its address, or a `sockaddr_in6`, with the 16-bit
words of its address, and the port. -/
inductive InetAddress where
  | in4 (addr : Fin 4 → UInt8) (port : UInt16)
  | in6 (words : Fin 8 → UInt16) (port : UInt16)

inductive SocketAssert where
  | addrStrLen
  | portRoom
  deriving DecidableEq, Repr

def INET_ADDRSTRLEN : Nat := 16
def INET6_ADDRSTRLEN : Nat := 46

/-- The characters of an array up to its first zero byte. -/
def cString (bytes : List UInt8) : List UInt8 := bytes.takeWhile (· ≠ 0)

/-- The conversion `%x`. -/
def hexadecimal (v : Nat) : List UInt8 := (Nat.toDigits 16 v).map fun c => c.val.toUInt8

/-- `inet_ntop` for `AF_INET`: four numbers with dots between them. -/
def inetNtop4 (addr : Fin 4 → UInt8) : List UInt8 :=
  decimal (addr 0).toNat ++ [46] ++ decimal (addr 1).toNat ++ [46] ++ decimal (addr 2).toNat ++ [46] ++
    decimal (addr 3).toNat

/-- How many words are zero from the i-th on. -/
def zerosFrom (words : Fin 8 → UInt16) (i : Fin 8) : Nat :=
  (((List.finRange 8).drop i).takeWhile (fun j => words j = 0)).length

/-- The first longest run of zero words: where it starts, and its length. -/
def longestZeros (words : Fin 8 → UInt16) : Nat × Nat :=
  (List.finRange 8).foldl (fun best i => if best.2 < zerosFrom words i then (i.val,zerosFrom words i) else best) (0,0)

/-- The words that `::` stands for. A single zero word is written out. -/
def Compressed (words : Fin 8 → UInt16) (i : Nat) : Prop :=
  2 ≤ (longestZeros words).2 ∧ (longestZeros words).1 ≤ i ∧ i < (longestZeros words).1 + (longestZeros words).2

instance (words : Fin 8 → UInt16) (i : Nat) : Decidable (Compressed words i) :=
  inferInstanceAs (Decidable (_ ∧ _ ∧ _))

/-- An IPv4 address behind zeros, or behind zeros and `ffff`, is written with dots. -/
def Embeds (words : Fin 8 → UInt16) : Prop :=
  (longestZeros words).1 = 0 ∧ ((longestZeros words).2 = 6 ∨ (longestZeros words).2 = 5 ∧ words 5 = 0xffff)

instance (words : Fin 8 → UInt16) : Decidable (Embeds words) := inferInstanceAs (Decidable (_ ∧ (_ ∨ _ ∧ _)))

/-- The last two words as the bytes of an IPv4 address. -/
def embedded (words : Fin 8 → UInt16) : Fin 4 → UInt8 :=
  ![(words 6 >>> 8).toUInt8,(words 6).toUInt8,(words 7 >>> 8).toUInt8,(words 7).toUInt8]

/-- One round of the formatting loop of `inet_ntop` for `AF_INET6`. -/
def inetNtopWord (words : Fin 8 → UInt16) (i : Fin 8) : List UInt8 :=
  if Compressed words i then (if i.val = (longestZeros words).1 then [58] else [])
  else if Embeds words ∧ i = 7 then []
  else (if i = 0 then [] else [58]) ++
    (if Embeds words ∧ i = 6 then inetNtop4 (embedded words) else hexadecimal (words i).toNat)

/-- `inet_ntop` for `AF_INET6`. -/
def inetNtop6 (words : Fin 8 → UInt16) : List UInt8 :=
  (List.finRange 8).flatMap (inetNtopWord words) ++ if Compressed words 7 then [58] else []

/-- What an array of the given size, empty so far, holds after `inet_ntop`. -/
def ntopInto (size : Nat) (text : List UInt8) : List UInt8 := if text.length < size then text else []

/-- `sockets::toIp` into an empty array. -/
def toIp (size : Nat) : InetAddress → Except SocketAssert (List UInt8)
  | .in4 addr _ => do
    require (size ≥ INET_ADDRSTRLEN) .addrStrLen
    return ntopInto size (inetNtop4 addr)
  | .in6 words _ => do
    require (size ≥ INET6_ADDRSTRLEN) .addrStrLen
    return ntopInto size (inetNtop6 words)

/-- The port lies at the same offset in both structures. -/
def InetAddress.port : InetAddress → UInt16
  | .in4 _ port | .in6 _ port => port

/-- `sockets::toIpPort` into an empty array. -/
def toIpPort (size : Nat) (addr : InetAddress) : Except SocketAssert (List UInt8) := do
  let buf ← toIp size addr
  let last := buf.length
  require (size > last) .portRoom
  return buf ++ cString (snprintf (size - last) ([58] ++ decimal addr.port.toNat)).1

/-- `InetAddress::toIpPort`. -/
def InetAddress.toIpPort (addr : InetAddress) : Except SocketAssert (List UInt8) := Socket.toIpPort 64 addr

private theorem mem_toDigits {b n : Nat} (hb : 1 < b) {c : Char} (h : c ∈ Nat.toDigits b n) :
    ∃ m, c = Nat.digitChar m := by
  induction n using Nat.strongRecOn with
  | ind n ih =>
    rw [Nat.toDigits_eq_if hb] at h
    split at h
    · exact ⟨n,List.mem_singleton.mp h⟩
    · next hn =>
      rcases List.mem_append.mp h with h | h
      · exact ih (n/b) (Nat.div_lt_self (by omega) hb) h
      · exact ⟨n % b,List.mem_singleton.mp h⟩

private theorem digitChar_byte (m : Nat) : m.digitChar.val.toUInt8 ≠ 0 := by
  match m with
  | 0 | 1 | 2 | 3 | 4 | 5 | 6 | 7 | 8 | 9 | 10 | 11 | 12 | 13 | 14 | 15 => decide
  | m+16 =>
    rw [Nat.digitChar_eq_star.mpr (Nat.le_add_left 16 m)]
    decide

/-- Digits are no zero bytes. -/
theorem zero_not_mem_digits {b n : Nat} (hb : 1 < b) : 0 ∉ (Nat.toDigits b n).map fun c => c.val.toUInt8 := by
  intro h
  obtain ⟨c,hc,h0⟩ := List.mem_map.mp h
  obtain ⟨m,rfl⟩ := mem_toDigits hb hc
  exact digitChar_byte m h0

/-- A number below 10^k has at most k digits. -/
theorem length_decimal {n k : Nat} (hk : 0 < k) (h : n < 10^k) : (decimal n).length ≤ k := by
  rw [decimal_natCast,List.length_map]
  exact (Nat.length_toDigits_le_iff (by decide) hk).mpr h

private theorem length_hexadecimal {n k : Nat} (hk : 0 < k) (h : n < 16^k) : (hexadecimal n).length ≤ k := by
  rw [hexadecimal,List.length_map]
  exact (Nat.length_toDigits_le_iff (by decide) hk).mpr h

/-- `snprintf` in an array with room for the text leaves the text. -/
theorem cString_snprintf {size : Nat} {text : List UInt8} (h0 : 0 ∉ text) (h : text.length < size) :
    cString (snprintf size text).1 = text := by
  rw [cString,snprintf,List.take_of_length_le (by omega),List.takeWhile_append_of_pos]
  · exact List.append_nil text
  · intro b hb
    simpa using fun heq : b = 0 => h0 (heq ▸ hb)

private theorem decimal_byte (b : UInt8) : (decimal b.toNat).length ≤ 3 ∧ 0 ∉ decimal b.toNat := by
  have hb := b.toNat_lt
  refine ⟨length_decimal (by decide) (by omega),?_⟩
  rw [decimal_natCast]
  exact zero_not_mem_digits (by decide)

private theorem inetNtop4_text (addr : Fin 4 → UInt8) : (inetNtop4 addr).length ≤ 15 ∧ 0 ∉ inetNtop4 addr := by
  have hb (i : Fin 4) := decimal_byte (addr i)
  constructor
  · simp only [inetNtop4,List.length_append,List.length_singleton]
    have h0 := (hb 0).1
    have h1 := (hb 1).1
    have h2 := (hb 2).1
    have h3 := (hb 3).1
    omega
  · simp only [inetNtop4,List.mem_append,List.mem_singleton,(hb _).2,false_or,or_false]
    decide

/-- What one word of an IPv6 address adds to the text. -/
theorem inetNtopWord_text (words : Fin 8 → UInt16) (i : Fin 8) :
    (inetNtopWord words i).length ≤ (if Embeds words then if i < 5 then 1 else if i = 6 then 16 else 5 else 5) ∧
      0 ∉ inetNtopWord words i := by
  have hw := (words i).toNat_lt
  have hhex : (hexadecimal (words i).toNat).length ≤ 4 := length_hexadecimal (by decide) (by omega)
  have hhex0 : 0 ∉ hexadecimal (words i).toNat := zero_not_mem_digits (by decide)
  obtain ⟨h4,h40⟩ := inetNtop4_text (embedded words)
  rw [inetNtopWord]
  split
  · split
    · refine ⟨?_,by decide⟩
      simp only [List.length_singleton]
      split_ifs <;> omega
    · exact ⟨Nat.zero_le _,List.not_mem_nil⟩
  · next hc =>
    split
    · exact ⟨Nat.zero_le _,List.not_mem_nil⟩
    · next h7 =>
      have hcolon : (if i = 0 then [] else [58] : List UInt8).length ≤ 1 ∧ 0 ∉ (if i = 0 then [] else [58] : List UInt8) := by
        split
        · exact ⟨Nat.zero_le _,List.not_mem_nil⟩
        · exact ⟨Nat.le_refl _,by decide⟩
      have hnumber : (if Embeds words ∧ i = 6 then inetNtop4 (embedded words) else hexadecimal (words i).toNat).length ≤
          (if Embeds words ∧ i = 6 then 15 else 4) ∧
          0 ∉ (if Embeds words ∧ i = 6 then inetNtop4 (embedded words) else hexadecimal (words i).toNat) := by
        split
        · exact ⟨h4,h40⟩
        · exact ⟨hhex,hhex0⟩
      generalize (if i = 0 then [] else [58] : List UInt8) = colon at hcolon
      generalize (if Embeds words ∧ i = 6 then inetNtop4 (embedded words) else hexadecimal (words i).toNat) = number at hnumber
      rw [List.length_append,List.mem_append,not_or]
      refine ⟨?_,hcolon.2,hnumber.2⟩
      by_cases he : Embeds words
      · -- an embedded address follows at least five compressed words
        have hi : ¬ i < 5 := by
          intro hlt
          have hlt' : i.val < 5 := hlt
          obtain ⟨hstart,hlen⟩ := he
          exact hc ⟨by omega,by omega,by omega⟩
        rw [if_pos he,if_neg hi]
        by_cases h6 : i = 6
        · rw [if_pos ⟨he,h6⟩] at hnumber
          rw [if_pos h6]
          omega
        · rw [if_neg (fun h => h6 h.2)] at hnumber
          rw [if_neg h6]
          omega
      · rw [if_neg (fun h => he h.1)] at hnumber
        rw [if_neg he]
        omega

private theorem inetNtop6_text (words : Fin 8 → UInt16) : (inetNtop6 words).length ≤ 45 ∧ 0 ∉ inetNtop6 words := by
  have hw (i : Fin 8) := inetNtopWord_text words i
  have hcolon : (if Compressed words 7 then [58] else [] : List UInt8).length ≤ 1 ∧
      0 ∉ (if Compressed words 7 then [58] else [] : List UInt8) := by
    split
    · exact ⟨Nat.le_refl _,by decide⟩
    · exact ⟨Nat.zero_le _,List.not_mem_nil⟩
  have hall : List.finRange 8 = [0,1,2,3,4,5,6,7] := rfl
  constructor
  · have h0 := (hw 0).1
    have h1 := (hw 1).1
    have h2 := (hw 2).1
    have h3 := (hw 3).1
    have h4 := (hw 4).1
    have h5 := (hw 5).1
    have h6 := (hw 6).1
    have h7 := (hw 7).1
    rw [inetNtop6,List.length_append,hall]
    simp only [List.flatMap_cons,List.flatMap_nil,List.length_append,List.length_nil]
    by_cases he : Embeds words
    · simp only [if_pos he] at h0 h1 h2 h3 h4 h5 h6 h7
      simp at h0 h1 h2 h3 h4 h5 h6 h7
      omega
    · simp only [if_neg he] at h0 h1 h2 h3 h4 h5 h6 h7
      omega
  · rw [inetNtop6,List.mem_append,not_or,List.mem_flatMap]
    exact ⟨fun ⟨i,_,hi⟩ => (hw i).2 hi,hcolon.2⟩

/-- The text of an address fits its array: no assertion fails and nothing is cut off. -/
theorem toIpPort_text (addr : InetAddress) :
    ∃ text, addr.toIpPort = .ok text ∧ text.length ≤ 51 ∧ 0 ∉ text := by
  have hip : ∃ ip, toIp 64 addr = .ok ip ∧ ip.length ≤ 45 ∧ 0 ∉ ip := by
    cases addr with
    | in4 addr port =>
      obtain ⟨hlen,h0⟩ := inetNtop4_text addr
      refine ⟨inetNtop4 addr,?_,by omega,h0⟩
      rw [toIp,require_pos (by decide),bind_ok,ntopInto,if_pos (by omega)]
      rfl
    | in6 words port =>
      obtain ⟨hlen,h0⟩ := inetNtop6_text words
      refine ⟨inetNtop6 words,?_,hlen,h0⟩
      rw [toIp,require_pos (by decide),bind_ok,ntopInto,if_pos (by omega)]
      rfl
  obtain ⟨ip,hip,hlen,h0⟩ := hip
  have hport := addr.port.toNat_lt
  have hdigits : (decimal addr.port.toNat).length ≤ 5 := length_decimal (by decide) (by omega)
  have hport0 : 0 ∉ [58] ++ decimal addr.port.toNat := by
    rw [decimal_natCast,List.mem_append,not_or]
    exact ⟨by decide,zero_not_mem_digits (by decide)⟩
  refine ⟨ip ++ ([58] ++ decimal addr.port.toNat),?_,?_,?_⟩
  · rw [InetAddress.toIpPort,toIpPort,hip,bind_ok]
    dsimp only
    rw [require_pos (by omega),bind_ok,cString_snprintf hport0]
    · rfl
    · rw [List.length_append,List.length_singleton]
      omega
  · rw [List.length_append,List.length_append,List.length_singleton]
    omega
  · rw [List.mem_append,not_or]
    exact ⟨h0,hport0⟩

example : inetNtop6 ![0,0,0,0,0,0xffff,0x102,0x304] = "::ffff:1.2.3.4".toList.map fun c => c.val.toUInt8 := by
  decide +kernel

example : inetNtop6 ![0xfe80,0,0,1,0,0,0,0] = "fe80:0:0:1::".toList.map fun c => c.val.toUInt8 := by
  decide +kernel

end LearningMuduo.Socket
