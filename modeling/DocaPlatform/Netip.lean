import Mathlib.Data.List.Basic
import Mathlib.Data.Nat.Digits.Defs
import Mathlib.Tactic

/-!
# Addresses, prefixes and their text

The address type of Go's `net/netip` together with its parser and its printer, and the
parts of the older `net` package that validation uses. An address is a family and a number
below the family's size. Zoned addresses are outside the model: every text that reaches an
allocation has first been read by `net.ParseIP` or `net.ParseCIDR`, and both refuse a zone.
-/
namespace DocaPlatform.Netip

open List

inductive Family where
  | v4
  | v6
  deriving DecidableEq, Repr

/-- `Addr.BitLen`. -/
def Family.bitLen : Family → ℕ
  | .v4 => 32
  | .v6 => 128

/-- A valid `netip.Addr`: the bytes of the address read as one big-endian number. -/
@[ext]
structure Addr where
  family : Family
  val : ℕ
  lt : val < 2 ^ family.bitLen
  deriving DecidableEq, Repr

/-- `Addr.Is4In6`: an IPv6 address below `::ffff:0:0/96`. -/
def Addr.is4In6 (a : Addr) : Bool :=
  a.family == .v6 && a.val / 2 ^ 32 == 0xffff

/-- `appendDecimal`: an octet without leading zeros. -/
def appendDecimal (x : ℕ) : List Char :=
  (if 100 ≤ x then [Nat.digitChar (x / 100)] else []) ++
    ((if 10 ≤ x then [Nat.digitChar (x / 10 % 10)] else []) ++ [Nat.digitChar (x % 10)])

/-- `appendHex`: a 16-bit group without leading zeros. -/
def appendHex (x : ℕ) : List Char :=
  (if 0x1000 ≤ x then [Nat.digitChar (x / 0x1000)] else []) ++
    ((if 0x100 ≤ x then [Nat.digitChar (x / 0x100 % 16)] else []) ++
      ((if 0x10 ≤ x then [Nat.digitChar (x / 0x10 % 16)] else []) ++ [Nat.digitChar (x % 16)]))

/-- `appendTo4`: the four octets of a 32-bit number in dotted form. -/
def appendTo4 (v : ℕ) : List Char :=
  appendDecimal (v / 2 ^ 24 % 256) ++ '.' :: (appendDecimal (v / 2 ^ 16 % 256) ++ '.' ::
    (appendDecimal (v / 2 ^ 8 % 256) ++ '.' :: appendDecimal (v % 256)))

/-- The big-endian 16-bit groups of `v`, `n` of them. -/
def groups : ℕ → ℕ → List ℕ
  | 0, _ => []
  | n + 1, v => v / 65536 ^ n % 65536 :: groups n v

/-- Groups separated by single colons. -/
def joinHex : List ℕ → List Char
  | [] => []
  | [g] => appendHex g
  | g :: g' :: gs => appendHex g ++ ':' :: joinHex (g' :: gs)

/-- The zero groups at the head of a list. -/
def leadingZeros (gs : List ℕ) : ℕ :=
  (gs.takeWhile (· == 0)).length

/-- First longest run of at least two zero groups, as its start and its length; the length is
zero while no run is found. -/
def zeroRun (gs : List ℕ) : ℕ × ℕ :=
  (List.range gs.length).foldl (fun best i =>
    let l := leadingZeros (gs.drop i)
    if 2 ≤ l ∧ best.2 < l then (i, l) else best) (0, 0)

/-- The text of some groups, with the first longest zero run written as `::`. -/
def compress (gs : List ℕ) : List Char :=
  let run := zeroRun gs
  if run.2 = 0 then joinHex gs
  else joinHex (gs.take run.1) ++ ':' :: ':' :: joinHex (gs.drop (run.1 + run.2))

def appendTo6 (v : ℕ) : List Char :=
  compress (groups 8 v)

/-- `Addr.String` as a list of characters. -/
def Addr.chars (a : Addr) : List Char :=
  match a.family with
  | .v4 => appendTo4 a.val
  | .v6 =>
    if a.is4In6 then "::ffff:".toList ++ appendTo4 (a.val % 2 ^ 32) else appendTo6 a.val

/-- `Addr.String`. -/
def Addr.string (a : Addr) : String :=
  String.ofList a.chars

/-! ## Parsing -/

/-- A `parseAddrError` without the input: the message and the text it points at. -/
abbrev ParseM := Except (String × List Char)

def decVal (c : Char) : Option ℕ :=
  if '0' ≤ c ∧ c ≤ '9' then some (c.toNat - '0'.toNat) else none

def hexVal (c : Char) : Option ℕ :=
  if '0' ≤ c ∧ c ≤ '9' then some (c.toNat - '0'.toNat)
  else if 'a' ≤ c ∧ c ≤ 'f' then some (c.toNat - 'a'.toNat + 10)
  else if 'A' ≤ c ∧ c ≤ 'F' then some (c.toNat - 'A'.toNat + 10)
  else none

/-- The loop of `parseIPv4Fields`: the octet being read, its digits so far, the octets read. -/
def parseIPv4Loop (val digLen : ℕ) (fields : List ℕ) : List Char → ParseM (List ℕ)
  | [] =>
    if fields.length < 3 then .error ("IPv4 address too short", [])
    else .ok (fields ++ [val])
  | c :: cs =>
    match decVal c with
    | some d =>
      if digLen = 1 ∧ val = 0 then .error ("IPv4 field has octet with leading zero", [])
      else if 255 < val * 10 + d then .error ("IPv4 field has value >255", [])
      else parseIPv4Loop (val * 10 + d) (digLen + 1) fields cs
    | none =>
      if c = '.' then
        if digLen = 0 ∨ cs = [] then
          .error ("IPv4 field must have at least one digit", c :: cs)
        else if fields.length = 3 then .error ("IPv4 address too long", [])
        else parseIPv4Loop 0 0 (fields ++ [val]) cs
      else .error ("unexpected character", c :: cs)

/-- The number that digits of a base denote, most significant first. -/
def ofDigitsBE (base : ℕ) (ds : List ℕ) : ℕ :=
  ds.foldl (fun acc d => acc * base + d) 0

/-- The hex digits of one group: its value, how many digits it has and what follows. -/
def scanHex (acc off : ℕ) : List Char → ParseM (ℕ × ℕ × List Char)
  | [] => .ok (acc, off, [])
  | c :: cs =>
    match hexVal c with
    | none => .ok (acc, off, c :: cs)
    | some d =>
      if 3 < off then .error ("each group must have 4 or less digits", [])
      else if 0xffff < acc * 16 + d then .error ("IPv6 field has value >=2^16", [])
      else scanHex (acc * 16 + d) (off + 1) cs

/-- The group loop of `parseIPv6`: at most `room` more groups after `gs`, with the position of
the ellipsis among them. Returns the groups, the ellipsis and the unread text. -/
def parseGroups : ℕ → List ℕ → Option ℕ → List Char →
    ParseM (List ℕ × Option ℕ × List Char)
  | 0, gs, ellipsis, s => .ok (gs, ellipsis, s)
  | room + 1, gs, ellipsis, s =>
    match scanHex 0 0 s with
    | .error e => .error (e.1, s)
    | .ok (acc, off, rest) =>
      if off = 0 then
        .error ("each colon-separated field must have at least one digit", s)
      else
        match rest with
        | [] => .ok (gs ++ [acc], ellipsis, [])
        | c :: rest' =>
          if c = '.' then
            if ellipsis = none ∧ gs.length ≠ 6 then
              .error ("embedded IPv4 address must replace the final 2 fields of the address", s)
            else if 8 < gs.length + 2 then
              .error ("too many hex fields to fit an embedded IPv4 at the end of the address", s)
            else
              match parseIPv4Loop 0 0 [] s with
              | .error e => .error e
              | .ok fields =>
                .ok (gs ++ [ofDigitsBE 256 (fields.take 2), ofDigitsBE 256 (fields.drop 2)],
                  ellipsis, [])
          else if c ≠ ':' then .error ("unexpected character, want colon", c :: rest')
          else
            match rest' with
            | [] => .error ("colon must be followed by more characters", c :: rest')
            | c' :: rest'' =>
              if c' = ':' then
                if ellipsis ≠ none then .error ("multiple :: in address", c' :: rest'')
                else if rest'' = [] then .ok (gs ++ [acc], some (gs.length + 1), [])
                else parseGroups room (gs ++ [acc]) (some (gs.length + 1)) rest''
              else parseGroups room (gs ++ [acc]) ellipsis rest'

/-- The end of `parseIPv6`: the whole text is used and the ellipsis, if any, fills the groups up. -/
def expandEllipsis (gs : List ℕ) (ellipsis : Option ℕ) (rest : List Char) : ParseM (List ℕ) :=
  if rest ≠ [] then .error ("trailing garbage after address", rest)
  else if gs.length < 8 then
    match ellipsis with
    | none => .error ("address string too short", [])
    | some k => .ok (gs.take k ++ (List.replicate (8 - gs.length) 0 ++ gs.drop k))
  else if ellipsis ≠ none then
    .error ("the :: must expand to at least one field of zeros", [])
  else .ok gs

/-- `parseIPv6` for a text without a zone, as the eight groups of the address. -/
def parseIPv6 (s : List Char) : ParseM (List ℕ) :=
  match s with
  | ':' :: ':' :: rest =>
    if rest = [] then .ok (List.replicate 8 0)
    else
      match parseGroups 8 [] (some 0) rest with
      | .error e => .error e
      | .ok (gs, ellipsis, rest') => expandEllipsis gs ellipsis rest'
  | _ =>
    match parseGroups 8 [] none s with
    | .error e => .error e
    | .ok (gs, ellipsis, rest') => expandEllipsis gs ellipsis rest'

/-- `AddrFrom4` and `AddrFrom16`; the fields of a parsed text always fit. -/
def addrOf (family : Family) (v : ℕ) : ParseM Addr :=
  if h : v < 2 ^ family.bitLen then .ok ⟨family, v, h⟩
  else .error ("address out of range", [])

/-- The characters `netip.ParseAddr` looks for. -/
def isSeparator (c : Char) : Bool :=
  c = '.' ∨ c = ':' ∨ c = '%'

/-- `netip.ParseAddr`: the first separator decides the family. -/
def parseAddrChars (s : List Char) : ParseM Addr :=
  match s.find? isSeparator with
  | some '.' =>
    match parseIPv4Loop 0 0 [] s with
    | .error e => .error e
    | .ok fields => addrOf .v4 (ofDigitsBE 256 fields)
  | some ':' =>
    match parseIPv6 s with
    | .error e => .error e
    | .ok gs => addrOf .v6 (ofDigitsBE 65536 gs)
  | some _ => .error ("missing IPv6 address", [])
  | none => .error ("unable to parse IP", [])

/-- `strconv.Quote` of a text without characters to escape. -/
def quote (s : String) : String :=
  "\"" ++ s ++ "\""

/-- `parseAddrError.Error`. -/
def parseAddrError (text : String) (e : String × List Char) : String :=
  "ParseAddr(" ++ quote text ++ "): " ++ e.1 ++
    if e.2 = [] then "" else " (at " ++ quote (String.ofList e.2) ++ ")"

/-- `netip.ParseAddr`. -/
def parseAddr (s : String) : Except String Addr :=
  (parseAddrChars s.toList).mapError (parseAddrError s)

/-- A valid `netip.Prefix`. -/
@[ext]
structure Prefix where
  addr : Addr
  bits : ℕ
  le : bits ≤ addr.family.bitLen
  deriving DecidableEq, Repr

def Prefix.hostBits (p : Prefix) : ℕ :=
  p.addr.family.bitLen - p.bits

/-- `Prefix.Masked`. -/
def Prefix.masked (p : Prefix) : Prefix :=
  ⟨⟨p.addr.family, p.addr.val / 2 ^ p.hostBits * 2 ^ p.hostBits,
    (Nat.div_mul_le_self _ _).trans_lt p.addr.lt⟩, p.bits, p.le⟩

/-- The text before and after the first `c`. -/
def cutFirst (c : Char) : List Char → Option (List Char × List Char)
  | [] => none
  | x :: xs =>
    if x = c then some ([], xs) else (cutFirst c xs).map fun p => (x :: p.1, p.2)

/-- The text before and after the last `c`. -/
def cutLast (c : Char) : List Char → Option (List Char × List Char)
  | [] => none
  | x :: xs =>
    match cutLast c xs with
    | some p => some (x :: p.1, p.2)
    | none => if x = c then some ([], xs) else none

/-- A nonempty row of decimal digits. -/
def decimal (s : List Char) : Option ℕ :=
  if s = [] then none else s.foldlM (fun acc c => (decVal c).map (acc * 10 + ·)) 0

/-- `netip.ParsePrefix`: the length has no leading zero. -/
def parsePrefix (s : String) : Except String Prefix :=
  let fail (msg : String) := "netip.ParsePrefix(" ++ quote s ++ "): " ++ msg
  match cutLast '/' s.toList with
  | none => .error (fail "no '/'")
  | some (l, r) =>
    match parseAddrChars l with
    | .error e => .error (fail (parseAddrError (String.ofList l) e))
    | .ok a =>
      if 1 < r.length ∧ r.head? = some '0' then
        .error (fail ("bad bits after slash: " ++ quote (String.ofList r)))
      else
        match decimal r with
        | none => .error (fail ("bad bits after slash: " ++ quote (String.ofList r)))
        | some n =>
          if h : n ≤ a.family.bitLen then .ok ⟨a, n, h⟩
          else .error (fail "prefix length out of range")

/-- `net.ParseIP`, which returns the 16-byte form of either family. -/
def parseIP (s : String) : Option Addr :=
  (parseAddr s).toOption

/-- A 16-byte address in `::ffff:0:0/96` is an IPv4 address for the `net` package. -/
def Addr.unmap (a : Addr) : Addr :=
  if a.is4In6 then ⟨.v4, a.val % 2 ^ 32, Nat.mod_lt _ (by decide)⟩ else a

/-- The number whose big-endian bytes are the 16-byte form of the address. -/
def Addr.as16 (a : Addr) : ℕ :=
  match a.family with
  | .v4 => 0xffff * 2 ^ 32 + a.val
  | .v6 => a.val

/-- `net.ParseCIDR`: the address as written and the network it lies in, a masked prefix. -/
def parseCIDR (s : String) : Except String (Addr × Prefix) :=
  match cutFirst '/' s.toList with
  | none => .error ("invalid CIDR address: " ++ s)
  | some (l, r) =>
    match parseAddrChars l, decimal r with
    | .ok a, some n =>
      if h : n ≤ a.family.bitLen then .ok (a, Prefix.masked ⟨a, n, h⟩)
      else .error ("invalid CIDR address: " ++ s)
    | _, _ => .error ("invalid CIDR address: " ++ s)

/-- `IPNet.Contains`. -/
def Prefix.contains (n : Prefix) (ip : Addr) : Bool :=
  let nn := n.addr.unmap
  let x := ip.unmap
  nn.family == x.family && nn.val / 2 ^ n.hostBits == x.val / 2 ^ n.hostBits

/-! ## What is printed is read back -/

theorem decVal_digitChar {d : ℕ} (hd : d < 10) : decVal (Nat.digitChar d) = some d := by
  revert d
  decide

theorem hexVal_digitChar {d : ℕ} (hd : d < 16) : hexVal (Nat.digitChar d) = some d := by
  revert d
  decide

theorem appendDecimal_length_pos (x : ℕ) : 0 < (appendDecimal x).length := by
  simp [appendDecimal]

/-- One octet followed by a dot or by the end of the text. -/
theorem parseIPv4Loop_appendDecimal {x : ℕ} (hx : x < 256) (fs : List ℕ) (rest : List Char) :
    parseIPv4Loop 0 0 fs (appendDecimal x ++ rest) =
      parseIPv4Loop x (appendDecimal x).length fs rest := by
  have h1 : decVal (Nat.digitChar (x % 10)) = some (x % 10) := decVal_digitChar (by omega)
  have h2 : decVal (Nat.digitChar (x / 10 % 10)) = some (x / 10 % 10) := decVal_digitChar (by omega)
  by_cases hb : 100 ≤ x
  · have h3 : decVal (Nat.digitChar (x / 100)) = some (x / 100) := decVal_digitChar (by omega)
    have ht : 10 ≤ x := by omega
    have hv : (x / 100 * 10 + x / 10 % 10) * 10 + x % 10 = x := by omega
    simp only [appendDecimal, if_pos hb, if_pos ht, cons_append, nil_append,
      parseIPv4Loop, h1, h2, h3, zero_mul, zero_add, length_cons, length_nil]
    rw [if_neg (by omega), if_neg (by omega), if_neg (by omega), if_neg (by omega),
      if_neg (by omega), if_neg (by omega), hv]
  · by_cases ht : 10 ≤ x
    · have hv : x / 10 % 10 * 10 + x % 10 = x := by omega
      simp only [appendDecimal, if_neg hb, if_pos ht, cons_append, nil_append,
        parseIPv4Loop, h1, h2, zero_mul, zero_add, length_cons, length_nil]
      rw [if_neg (by omega), if_neg (by omega), if_neg (by omega), if_neg (by omega), hv]
    · have hv : x % 10 = x := by omega
      simp only [appendDecimal, if_neg hb, if_neg ht, cons_append, nil_append,
        parseIPv4Loop, h1, zero_mul, zero_add, length_cons, length_nil]
      rw [if_neg (by omega), if_neg (by omega), hv]

theorem parseIPv4Loop_dot {x k : ℕ} {fs : List ℕ} {rest : List Char} (hk : 0 < k)
    (hfs : fs.length ≠ 3) (hr : rest ≠ []) :
    parseIPv4Loop x k fs ('.' :: rest) = parseIPv4Loop 0 0 (fs ++ [x]) rest := by
  have hd : decVal '.' = none := rfl
  have hk' : ¬ (k = 0 ∨ rest = []) := by simp [hr]; omega
  simp [parseIPv4Loop, hd, hk', hfs]

/-- The dotted text of a 32-bit number gives its four octets back. -/
theorem parseIPv4Loop_appendTo4 (v : ℕ) :
    parseIPv4Loop 0 0 [] (appendTo4 v) =
      .ok [v / 2 ^ 24 % 256, v / 2 ^ 16 % 256, v / 2 ^ 8 % 256, v % 256] := by
  have hlt : ∀ n : ℕ, n % 256 < 256 := fun n => Nat.mod_lt _ (by decide)
  have hne : ∀ (x : ℕ) (l : List Char), appendDecimal x ++ l ≠ [] := fun x l => by
    simp [appendDecimal]
  have hl := parseIPv4Loop_appendDecimal (hlt v)
    [v / 2 ^ 24 % 256, v / 2 ^ 16 % 256, v / 2 ^ 8 % 256] []
  rw [append_nil] at hl
  unfold appendTo4
  rw [parseIPv4Loop_appendDecimal (hlt _),
    parseIPv4Loop_dot (appendDecimal_length_pos _) (by simp) (hne _ _),
    parseIPv4Loop_appendDecimal (hlt _),
    parseIPv4Loop_dot (appendDecimal_length_pos _) (by simp) (hne _ _),
    parseIPv4Loop_appendDecimal (hlt _),
    parseIPv4Loop_dot (appendDecimal_length_pos _) (by simp) (by simpa using hne (v % 256) [])]
  simpa [parseIPv4Loop] using hl

theorem appendHex_ne_nil (g : ℕ) : appendHex g ≠ [] := by
  simp [appendHex]

theorem scanHex_digitChar {d acc off : ℕ} (hd : d < 16) (ho : off ≤ 3)
    (ha : acc * 16 + d < 65536) (cs : List Char) :
    scanHex acc off (Nat.digitChar d :: cs) = scanHex (acc * 16 + d) (off + 1) cs := by
  rw [scanHex, hexVal_digitChar hd]
  dsimp only
  rw [if_neg (by omega), if_neg (by omega)]

/-- One group, followed by a character that is no hex digit or by the end of the text. -/
theorem scanHex_appendHex {g : ℕ} (hg : g < 65536) (rest : List Char)
    (hr : ∀ c ∈ rest.head?, hexVal c = none) :
    scanHex 0 0 (appendHex g ++ rest) = .ok (g, (appendHex g).length, rest) := by
  have hs : ∀ acc off, scanHex acc off rest = .ok (acc, off, rest) := by
    intro acc off
    cases rest with
    | nil => rfl
    | cons c cs => simp [scanHex, hr c (by simp)]
  -- One case for each number of digits.
  by_cases b3 : 4096 ≤ g
  · have hv : (((0 * 16 + g / 4096) * 16 + g / 256 % 16) * 16 + g / 16 % 16) * 16 + g % 16 = g := by
      omega
    simp only [appendHex, if_pos b3, if_pos (show 256 ≤ g by omega), if_pos (show 16 ≤ g by omega),
      cons_append, nil_append]
    rw [scanHex_digitChar (by omega) (by omega) (by omega),
      scanHex_digitChar (by omega) (by omega) (by omega),
      scanHex_digitChar (by omega) (by omega) (by omega),
      scanHex_digitChar (by omega) (by omega) (by omega), hv, hs]
    rfl
  by_cases b2 : 256 ≤ g
  · have hv : ((0 * 16 + g / 256 % 16) * 16 + g / 16 % 16) * 16 + g % 16 = g := by omega
    simp only [appendHex, if_neg b3, if_pos b2, if_pos (show 16 ≤ g by omega),
      cons_append, nil_append]
    rw [scanHex_digitChar (by omega) (by omega) (by omega),
      scanHex_digitChar (by omega) (by omega) (by omega),
      scanHex_digitChar (by omega) (by omega) (by omega), hv, hs]
    rfl
  by_cases b1 : 16 ≤ g
  · have hv : (0 * 16 + g / 16 % 16) * 16 + g % 16 = g := by omega
    simp only [appendHex, if_neg b3, if_neg b2, if_pos b1, cons_append, nil_append]
    rw [scanHex_digitChar (by omega) (by omega) (by omega),
      scanHex_digitChar (by omega) (by omega) (by omega), hv, hs]
    rfl
  · have hv : 0 * 16 + g % 16 = g := by omega
    simp only [appendHex, if_neg b3, if_neg b2, if_neg b1, cons_append, nil_append]
    rw [scanHex_digitChar (by omega) (by omega) (by omega), hv, hs]
    rfl

section ParseGroups

variable {g room : ℕ} {gs : List ℕ} {ellipsis : Option ℕ} {rest : List Char}

theorem parseGroups_last (hg : g < 65536) :
    parseGroups (room + 1) gs ellipsis (appendHex g) = .ok (gs ++ [g], ellipsis, []) := by
  have hs := scanHex_appendHex hg [] (by simp)
  rw [append_nil] at hs
  simp [parseGroups, hs, appendHex_ne_nil]

theorem parseGroups_colon (hg : g < 65536) {c : Char} (hc : c ≠ ':') :
    parseGroups (room + 1) gs ellipsis (appendHex g ++ ':' :: c :: rest) =
      parseGroups room (gs ++ [g]) ellipsis (c :: rest) := by
  have hs := scanHex_appendHex hg (':' :: c :: rest) (by simp; rfl)
  simp [parseGroups, hs, appendHex_ne_nil, hc]

theorem parseGroups_ellipsis (hg : g < 65536) :
    parseGroups (room + 1) gs none (appendHex g ++ ':' :: ':' :: rest) =
      if rest = [] then .ok (gs ++ [g], some (gs.length + 1), [])
      else parseGroups room (gs ++ [g]) (some (gs.length + 1)) rest := by
  have hs := scanHex_appendHex hg (':' :: ':' :: rest) (by simp; rfl)
  simp [parseGroups, hs, appendHex_ne_nil]

end ParseGroups

/-! The text of an octet or of a group is a nonempty row of digits. -/

variable {x g room : ℕ} {s rest : List Char} {c : Char} {gs : List ℕ}

theorem appendDecimal_eq_map (hx : x < 256) :
    ∃ ds : List ℕ, (∀ d ∈ ds, d < 16) ∧ appendDecimal x = ds.map Nat.digitChar := by
  refine ⟨(if 100 ≤ x then [x / 100] else []) ++ ((if 10 ≤ x then [x / 10 % 10] else []) ++
    [x % 10]), ?_, ?_⟩
  · intro d hd
    simp only [mem_append, mem_ite_nil_right, mem_singleton] at hd
    omega
  · unfold appendDecimal
    split_ifs <;> rfl

theorem appendHex_eq_map (hx : x < 65536) :
    ∃ ds : List ℕ, (∀ d ∈ ds, d < 16) ∧ appendHex x = ds.map Nat.digitChar := by
  refine ⟨(if 4096 ≤ x then [x / 4096] else []) ++ ((if 256 ≤ x then [x / 256 % 16] else []) ++
    ((if 16 ≤ x then [x / 16 % 16] else []) ++ [x % 16])), ?_, ?_⟩
  · intro d hd
    simp only [mem_append, mem_ite_nil_right, mem_singleton] at hd
    omega
  · unfold appendHex
    split_ifs <;> rfl

theorem digitChar_ne_colon {d : ℕ} (hd : d < 16) : Nat.digitChar d ≠ ':' := by
  revert d
  decide

theorem eq_cons_of_digits (hs : s ≠ [])
    (h : ∃ ds : List ℕ, (∀ d ∈ ds, d < 16) ∧ s = ds.map Nat.digitChar) :
    ∃ c cs, s = c :: cs ∧ c ≠ ':' := by
  obtain ⟨ds, hds, rfl⟩ := h
  cases ds with
  | nil => exact absurd rfl hs
  | cons d ds => exact ⟨_, _, rfl, digitChar_ne_colon (hds d (by simp))⟩

theorem joinHex_eq_cons (hg : g < 65536) (gs : List ℕ) :
    ∃ c cs, joinHex (g :: gs) = c :: cs ∧ c ≠ ':' := by
  obtain ⟨c, cs, h, hc⟩ := eq_cons_of_digits (appendHex_ne_nil g) (appendHex_eq_map hg)
  cases gs with
  | nil => exact ⟨c, cs, h, hc⟩
  | cons g' gs => exact ⟨c, cs ++ ':' :: joinHex (g' :: gs), by simp [joinHex, h], hc⟩

theorem parseGroups_joinHex {new : List ℕ} (hne : new ≠ []) (hn : ∀ g ∈ new, g < 65536)
    (hr : new.length ≤ room) (gs : List ℕ) (ellipsis : Option ℕ) :
    parseGroups room gs ellipsis (joinHex new) = .ok (gs ++ new, ellipsis, []) := by
  induction new generalizing room gs with
  | nil => exact absurd rfl hne
  | cons g new ih =>
    obtain ⟨room, rfl⟩ : ∃ r, room = r + 1 := ⟨room - 1, by simp at hr; omega⟩
    have hg : g < 65536 := hn g (by simp)
    cases new with
    | nil => simpa [joinHex] using parseGroups_last hg
    | cons g' new =>
      obtain ⟨c, cs, hco, hc⟩ := joinHex_eq_cons (hn g' (by simp)) new
      rw [joinHex, hco, parseGroups_colon hg hc, ← hco,
        ih (by simp) (fun x hx => hn x (by simp [hx])) (by simpa using hr)]
      simp

theorem parseGroups_joinHex_ellipsis {new : List ℕ} (hne : new ≠ []) (hn : ∀ g ∈ new, g < 65536)
    (hr : new.length ≤ room) (gs : List ℕ) (rest : List Char) :
    parseGroups room gs none (joinHex new ++ ':' :: ':' :: rest) =
      if rest = [] then .ok (gs ++ new, some (gs.length + new.length), [])
      else parseGroups (room - new.length) (gs ++ new) (some (gs.length + new.length)) rest := by
  induction new generalizing room gs with
  | nil => exact absurd rfl hne
  | cons g new ih =>
    obtain ⟨room, rfl⟩ : ∃ r, room = r + 1 := ⟨room - 1, by simp at hr; omega⟩
    have hg : g < 65536 := hn g (by simp)
    cases new with
    | nil => simpa [joinHex] using parseGroups_ellipsis hg
    | cons g' new =>
      obtain ⟨c, cs, hco, hc⟩ := joinHex_eq_cons (hn g' (by simp)) new
      rw [joinHex, append_assoc, cons_append, hco, cons_append,
        parseGroups_colon hg hc, ← cons_append, ← hco,
        ih (by simp) (fun x hx => hn x (by simp [hx])) (by simpa using hr)]
      simp only [length_append, length_cons, length_nil, append_assoc,
        cons_append, nil_append]
      have hp : gs.length + (0 + 1) + (new.length + 1) = gs.length + (new.length + 1 + 1) := by
        omega
      have hl : room - (new.length + 1) = room + 1 - (new.length + 1 + 1) := by omega
      rw [hp, hl]

theorem groups_length (n v : ℕ) : (groups n v).length = n := by
  induction n with
  | zero => rfl
  | succ n ih => simp [groups, ih]

theorem groups_lt {n v : ℕ} (hg : g ∈ groups n v) : g < 65536 := by
  induction n with
  | zero => simp [groups] at hg
  | succ n ih =>
    rcases mem_cons.mp hg with rfl | hg
    · exact Nat.mod_lt _ (by decide)
    · exact ih hg

theorem foldl_groups (n v acc : ℕ) :
    (groups n v).foldl (fun acc d => acc * 65536 + d) acc = acc * 65536 ^ n + v % 65536 ^ n := by
  induction n generalizing acc with
  | zero => simp [groups, Nat.mod_one]
  | succ n ih =>
    have hs : v % 65536 ^ (n + 1) = v % 65536 ^ n + 65536 ^ n * (v / 65536 ^ n % 65536) := by
      rw [pow_succ, Nat.mod_mul]
    rw [groups, foldl_cons, ih, hs]
    ring

theorem leadingZeros_le (gs : List ℕ) : leadingZeros gs ≤ gs.length :=
  (takeWhile_sublist _).length_le

theorem eq_replicate_leadingZeros (gs : List ℕ) :
    gs = List.replicate (leadingZeros gs) 0 ++ gs.drop (leadingZeros gs) := by
  induction gs with
  | nil => rfl
  | cons g gs ih =>
    by_cases hg : g = 0
    · have hl : leadingZeros (g :: gs) = leadingZeros gs + 1 := by simp [leadingZeros, hg]
      rw [hl, replicate_succ, cons_append, drop_succ_cons, ← ih, hg]
    · simp [leadingZeros, hg]

/-- A run of zeros inside `gs`. -/
def IsZeroRun (gs : List ℕ) (run : ℕ × ℕ) : Prop :=
  run.1 + run.2 ≤ gs.length ∧
    gs = gs.take run.1 ++ (List.replicate run.2 0 ++ gs.drop (run.1 + run.2))

theorem zeroRun_spec (gs : List ℕ) : IsZeroRun gs (zeroRun gs) := by
  refine List.foldlRecOn (motive := IsZeroRun gs) _ _ ?_ ?_
  · simp [IsZeroRun]
  intro best hb i hi
  dsimp only
  split_ifs with h
  · have hle := leadingZeros_le (gs.drop i)
    have hi' : i < gs.length := mem_range.mp hi
    have hd := eq_replicate_leadingZeros (gs.drop i)
    rw [length_drop] at hle
    rw [drop_drop] at hd
    refine ⟨by dsimp only; omega, ?_⟩
    calc gs = gs.take i ++ gs.drop i := (take_append_drop i gs).symm
      _ = _ := by rw [← hd]
  · exact hb

theorem parseIPv6_of_head (hc : c ≠ ':') (cs : List Char) :
    parseIPv6 (c :: cs) = match parseGroups 8 [] none (c :: cs) with
      | .error e => .error e
      | .ok (gs, ellipsis, rest') => expandEllipsis gs ellipsis rest' := by
  unfold parseIPv6
  split
  · rename_i heq
    exact absurd (List.cons.inj heq).1 hc
  · rfl

theorem expandEllipsis_some (pre post : List ℕ) (h : pre.length + post.length < 8) :
    expandEllipsis (pre ++ post) (some pre.length) [] =
      .ok (pre ++ (List.replicate (8 - (pre.length + post.length)) 0 ++ post)) := by
  simp [expandEllipsis, h]

theorem parseIPv6_compress (hlen : gs.length = 8) (hlt : ∀ g ∈ gs, g < 65536) :
    parseIPv6 (compress gs) = .ok gs := by
  obtain ⟨hle, hs⟩ := zeroRun_spec gs
  unfold compress
  generalize zeroRun gs = run at hle hs
  obtain ⟨i, l⟩ := run
  dsimp only at hle hs ⊢
  have hpr : ∀ g ∈ gs.take i, g < 65536 := fun g hg => hlt g (mem_of_mem_take hg)
  have hpost : ∀ g ∈ gs.drop (i + l), g < 65536 := fun g hg => hlt g (mem_of_mem_drop hg)
  have hprel : (gs.take i).length = i := by simp; omega
  have hpo : (gs.drop (i + l)).length = 8 - (i + l) := by simp [hlen]
  split_ifs with hl
  · -- No run: eight groups and no ellipsis.
    obtain ⟨g, gs', rfl⟩ : ∃ g gs', gs = g :: gs' := exists_cons_of_length_eq_add_one hlen
    obtain ⟨c, cs, hco, hc⟩ := joinHex_eq_cons (hlt g (by simp)) gs'
    rw [hco, parseIPv6_of_head hc, ← hco, parseGroups_joinHex (by simp) hlt (by omega) [] none]
    simp [expandEllipsis, hlen]
  generalize hprev : gs.take i = pre at *
  generalize hpostv : gs.drop (i + l) = post at *
  have he := expandEllipsis_some pre post (by omega)
  have hz : 8 - (pre.length + post.length) = l := by omega
  rw [hz, ← hs] at he
  -- What follows the ellipsis is read by the same loop, whatever came before it.
  have hpostparse : ∀ room, post.length ≤ room → ∀ gs' e, post ≠ [] →
      parseGroups room gs' e (joinHex post) = .ok (gs' ++ post, e, []) :=
    fun room hr gs' e hne => parseGroups_joinHex hne hpost hr gs' e
  have hj : joinHex post = [] ↔ post = [] := by
    refine ⟨fun h => ?_, fun h => by simp [h, joinHex]⟩
    cases post with
    | nil => rfl
    | cons g post =>
      obtain ⟨c, cs, hco, -⟩ := joinHex_eq_cons (hpost g (by simp)) post
      simp [hco] at h
  cases pre with
  | nil =>
    simp only [joinHex, nil_append, parseIPv6, hj]
    split_ifs with hp
    · simp [hs, hp, show l = 8 by simp [hp] at *; omega]
    · rw [hpostparse 8 (by omega) _ _ hp]
      simpa using he
  | cons g pre =>
    obtain ⟨c, cs, hco, hc⟩ := joinHex_eq_cons (hpr g (by simp)) pre
    rw [hco, cons_append, parseIPv6_of_head hc, ← cons_append, ← hco,
      parseGroups_joinHex_ellipsis (by simp) hpr (by omega)]
    simp only [hj, nil_append, length_nil, zero_add]
    split_ifs with hp
    · simpa [hp] using he
    · rw [hpostparse _ (by omega) _ _ hp]
      exact he

/-- An octet followed by a dot also reads as hex digits, which is how an embedded IPv4 tail is
noticed. -/
theorem scanHex_appendDecimal (hx : x < 256) (rest : List Char) :
    ∃ acc off, off ≠ 0 ∧
      scanHex 0 0 (appendDecimal x ++ '.' :: rest) = .ok (acc, off, '.' :: rest) := by
  have hs : ∀ acc off, scanHex acc off ('.' :: rest) = .ok (acc, off, '.' :: rest) :=
    fun acc off => rfl
  unfold appendDecimal
  by_cases hb : 100 ≤ x
  · rw [if_pos hb, if_pos (by omega)]
    simp only [cons_append, nil_append]
    rw [scanHex_digitChar (by omega) (by omega) (by omega),
      scanHex_digitChar (by omega) (by omega) (by omega),
      scanHex_digitChar (by omega) (by omega) (by omega), hs]
    exact ⟨_, _, by simp, rfl⟩
  by_cases ht : 10 ≤ x
  · rw [if_neg hb, if_pos ht]
    simp only [cons_append, nil_append]
    rw [scanHex_digitChar (by omega) (by omega) (by omega),
      scanHex_digitChar (by omega) (by omega) (by omega), hs]
    exact ⟨_, _, by simp, rfl⟩
  · rw [if_neg hb, if_neg ht]
    simp only [cons_append, nil_append]
    rw [scanHex_digitChar (by omega) (by omega) (by omega), hs]
    exact ⟨_, _, by simp, rfl⟩

/-- The dotted tail of an IPv4-mapped address. -/
theorem parseGroups_appendTo4 {k : ℕ} (hgs : gs.length ≤ 6) (v : ℕ) :
    parseGroups (room + 1) gs (some k) (appendTo4 v) =
      .ok (gs ++ [v / 2 ^ 24 % 256 * 256 + v / 2 ^ 16 % 256, v / 2 ^ 8 % 256 * 256 + v % 256],
        some k, []) := by
  have hp := parseIPv4Loop_appendTo4 v
  obtain ⟨acc, off, ho, hs⟩ := scanHex_appendDecimal (x := v / 2 ^ 24 % 256)
    (Nat.mod_lt _ (by decide)) (appendDecimal (v / 2 ^ 16 % 256) ++ '.' ::
    (appendDecimal (v / 2 ^ 8 % 256) ++ '.' :: appendDecimal (v % 256)))
  change scanHex 0 0 (appendTo4 v) = _ at hs
  rw [parseGroups, hs]
  dsimp only
  rw [if_neg ho, if_pos rfl, if_neg (by simp), if_neg (by omega), hp]
  simp [ofDigitsBE]

theorem parseIPv6_mapped (v : ℕ) :
    parseIPv6 ("::ffff:".toList ++ appendTo4 v) =
      .ok [0, 0, 0, 0, 0, 0xffff, v / 2 ^ 24 % 256 * 256 + v / 2 ^ 16 % 256,
        v / 2 ^ 8 % 256 * 256 + v % 256] := by
  obtain ⟨c, cs, hco, hc⟩ : ∃ c cs, appendTo4 v = c :: cs ∧ c ≠ ':' := by
    have hx : v / 2 ^ 24 % 256 < 256 := Nat.mod_lt _ (by decide)
    obtain ⟨c, cs, h, hc⟩ := eq_cons_of_digits
      (ne_nil_of_length_pos (appendDecimal_length_pos _)) (appendDecimal_eq_map hx)
    exact ⟨c, _, by rw [appendTo4, h]; rfl, hc⟩
  have ht : "::ffff:".toList ++ appendTo4 v =
      ':' :: ':' :: (appendHex 0xffff ++ ':' :: c :: cs) := by
    rw [hco]
    rfl
  rw [ht, parseIPv6, if_neg (by simp [appendHex_ne_nil]), parseGroups_colon (by decide) hc,
    ← hco, parseGroups_appendTo4 (by simp)]
  simp [expandEllipsis, List.replicate]

theorem isSeparator_digitChar {d : ℕ} (hd : d < 16) : isSeparator (Nat.digitChar d) = false := by
  revert d
  decide

theorem find_digits {ds : List ℕ} (hds : ∀ d ∈ ds, d < 16) (hc : isSeparator c = true)
    (rest : List Char) : (ds.map Nat.digitChar ++ c :: rest).find? isSeparator = some c := by
  induction ds with
  | nil => simp [hc]
  | cons d ds ih =>
    simp only [map_cons, cons_append, find?_cons,
      isSeparator_digitChar (hds d (by simp))]
    exact ih fun d' hd' => hds d' (by simp [hd'])

theorem find_appendHex (hg : g < 65536) (rest : List Char) :
    (appendHex g ++ ':' :: rest).find? isSeparator = some ':' := by
  obtain ⟨ds, hds, h⟩ := appendHex_eq_map hg
  rw [h]
  exact find_digits hds rfl rest

theorem find_joinHex (hg : g < 65536) (rest : List Char) :
    (joinHex (g :: gs) ++ ':' :: rest).find? isSeparator = some ':' := by
  cases gs with
  | nil => exact find_appendHex hg rest
  | cons g' gs =>
    rw [joinHex, append_assoc, cons_append]
    exact find_appendHex hg _

/-- The first separator of the text of eight groups is a colon. -/
theorem find_compress (hlen : gs.length = 8) (hlt : ∀ g ∈ gs, g < 65536) :
    (compress gs).find? isSeparator = some ':' := by
  unfold compress
  dsimp only
  split_ifs with hl
  · match gs, hlen with
    | g :: g' :: gs, _ =>
      rw [joinHex]
      exact find_appendHex (hlt g (by simp)) _
  · cases hp : gs.take (zeroRun gs).1 with
    | nil => rfl
    | cons g pre =>
      have hg : g ∈ gs := mem_of_mem_take (by rw [hp]; simp)
      exact find_joinHex (hlt g hg) _

/-- `netip.ParseAddr` reads back what `Addr.String` prints. -/
theorem parseAddrChars_chars (a : Addr) : parseAddrChars a.chars = .ok a := by
  obtain ⟨family, v, hv⟩ := a
  cases family with
  | v4 =>
    have hf : (appendTo4 v).find? isSeparator = some '.' := by
      obtain ⟨ds, hds, h⟩ := appendDecimal_eq_map (x := v / 2 ^ 24 % 256) (Nat.mod_lt _ (by decide))
      rw [appendTo4, h]
      exact find_digits hds rfl _
    have hva : ofDigitsBE 256 [v / 2 ^ 24 % 256, v / 2 ^ 16 % 256, v / 2 ^ 8 % 256, v % 256] = v := by
      simp only [Family.bitLen] at hv
      simp only [ofDigitsBE, foldl_cons, foldl_nil]
      omega
    simp only [Addr.chars, parseAddrChars, hf, parseIPv4Loop_appendTo4, hva]
    simp [addrOf, hv]
  | v6 =>
    simp only [Addr.chars]
    split_ifs with hm
    · have hf : ("::ffff:".toList ++ appendTo4 (v % 2 ^ 32)).find? isSeparator = some ':' := rfl
      have hma : v / 2 ^ 32 = 65535 := by simpa [Addr.is4In6] using hm
      have hva : ofDigitsBE 65536 [0, 0, 0, 0, 0, 0xffff,
          v % 2 ^ 32 / 2 ^ 24 % 256 * 256 + v % 2 ^ 32 / 2 ^ 16 % 256,
          v % 2 ^ 32 / 2 ^ 8 % 256 * 256 + v % 2 ^ 32 % 256] = v := by
        simp only [ofDigitsBE, foldl_cons, foldl_nil]
        omega
      simp only [parseAddrChars, hf, parseIPv6_mapped, hva]
      simp [addrOf, hv]
    · have hlt : ∀ g ∈ groups 8 v, g < 65536 := fun g hg => groups_lt hg
      have hva : ofDigitsBE 65536 (groups 8 v) = v := by
        have hp : (65536 : ℕ) ^ 8 = 2 ^ Family.v6.bitLen := by norm_num [Family.bitLen]
        rw [ofDigitsBE, foldl_groups, hp, Nat.mod_eq_of_lt hv, zero_mul, zero_add]
      simp only [parseAddrChars, appendTo6, find_compress (groups_length 8 v) hlt,
        parseIPv6_compress (groups_length 8 v) hlt, hva]
      simp [addrOf, hv]

@[simp] theorem parseAddr_string (a : Addr) : parseAddr a.string = .ok a := by
  simp [parseAddr, Addr.string, parseAddrChars_chars, Except.mapError]

/-! ## The two prefix parsers agree -/

theorem parseIPv4Loop_slash {val digLen : ℕ} {fs r : List ℕ}
    (h : parseIPv4Loop val digLen fs s = .ok r) : '/' ∉ s := by
  induction s generalizing val digLen fs with
  | nil => simp
  | cons c cs ih =>
    have hc : c ≠ '/' := by
      rintro rfl
      simp [parseIPv4Loop, show decVal '/' = none from rfl] at h
    have hcs : '/' ∉ cs := by
      unfold parseIPv4Loop at h
      split at h
      · split_ifs at h
        exact ih h
      · split_ifs at h
        exact ih h
    simp [hc.symm, hcs]

theorem scanHex_slash {acc off acc' off' : ℕ} (h : scanHex acc off s = .ok (acc', off', rest))
    (hs : '/' ∈ s) : '/' ∈ rest := by
  induction s generalizing acc off with
  | nil => simp at hs
  | cons c cs ih =>
    unfold scanHex at h
    split at h
    · cases h
      exact hs
    · rename_i d hd
      have hc : '/' ∈ cs := by
        rcases mem_cons.mp hs with rfl | hs
        · simp [show hexVal '/' = none from rfl] at hd
        · exact hs
      split_ifs at h
      exact ih h hc

theorem parseGroups_slash {gs' : List ℕ} {e e' : Option ℕ}
    (h : parseGroups room gs e s = .ok (gs', e', rest)) (hs : '/' ∈ s) : '/' ∈ rest := by
  induction room generalizing gs e s with
  | zero =>
    cases h
    exact hs
  | succ room ih =>
    unfold parseGroups at h
    split at h
    · cases h
    rename_i acc off left hsc
    have hl := scanHex_slash hsc hs
    by_cases ho : off = 0
    · rw [if_pos ho] at h
      cases h
    rw [if_neg ho] at h
    split at h
    · simp at hl
    rename_i c left'
    by_cases hd : c = '.'
    · -- The rest of the text is read as an embedded IPv4 address.
      rw [if_pos hd] at h
      split_ifs at h
      split at h
      · cases h
      · rename_i hf
        exact absurd hs (parseIPv4Loop_slash hf)
    by_cases hc : c = ':'
    · rw [if_neg hd, if_neg (not_not.mpr hc)] at h
      have hleft' : '/' ∈ left' := by simpa [hc] using hl
      split at h
      · cases h
      rename_i c' left''
      split_ifs at h with hc' _ hn
      · subst hc' hn
        simp at hleft'
      · subst hc'
        exact ih h (by simpa using hleft')
      · exact ih h hleft'
    · rw [if_neg hd, if_pos hc] at h
      cases h

theorem expandEllipsis_rest {gs' : List ℕ} {e : Option ℕ} (h : expandEllipsis gs e rest = .ok gs') :
    rest = [] := by
  by_contra hne
  simp [expandEllipsis, hne] at h

theorem parseIPv6_slash (h : parseIPv6 s = .ok gs) : '/' ∉ s := by
  intro hs
  unfold parseIPv6 at h
  split at h
  · rename_i rest
    split_ifs at h with hn
    · simp [hn] at hs
    · split at h
      · cases h
      · rename_i hg
        have := parseGroups_slash hg (by simpa using hs)
        simp [expandEllipsis_rest h] at this
  · split at h
    · cases h
    · rename_i hg
      have := parseGroups_slash hg hs
      simp [expandEllipsis_rest h] at this

theorem parseAddrChars_slash {a : Addr} (h : parseAddrChars s = .ok a) : '/' ∉ s := by
  unfold parseAddrChars at h
  split at h
  · split at h
    · cases h
    · rename_i hf
      exact parseIPv4Loop_slash hf
  · split at h
    · cases h
    · rename_i hg
      exact parseIPv6_slash hg
  · cases h
  · cases h

theorem cutLast_spec {l r : List Char} (h : cutLast c s = some (l, r)) : s = l ++ c :: r := by
  induction s generalizing l with
  | nil => cases h
  | cons x xs ih =>
    unfold cutLast at h
    split at h
    · rename_i p hp
      cases h
      simp [← ih hp]
    · split_ifs at h with hx
      cases h
      simp [hx]

theorem cutFirst_append {l r : List Char} (h : c ∉ l) : cutFirst c (l ++ c :: r) = some (l, r) := by
  induction l with
  | nil => simp [cutFirst]
  | cons x l ih =>
    simp only [mem_cons, not_or] at h
    simp [cutFirst, Ne.symm h.1, ih h.2]

/-- Where `netip.ParsePrefix` succeeds, `net.ParseCIDR` returns the same address and network. -/
theorem parseCIDR_of_parsePrefix {s : String} {p : Prefix} (h : parsePrefix s = .ok p) :
    parseCIDR s = .ok (p.addr, p.masked) := by
  unfold parsePrefix at h
  dsimp only at h
  split at h
  · cases h
  rename_i l r hc
  split at h
  · cases h
  rename_i a ha
  split_ifs at h
  split at h
  · cases h
  rename_i n hn
  split_ifs at h with hle
  cases h
  have hf : cutFirst '/' s.toList = some (l, r) := by
    rw [cutLast_spec hc]
    exact cutFirst_append (parseAddrChars_slash ha)
  simp [parseCIDR, hf, ha, hn, hle]

end DocaPlatform.Netip
