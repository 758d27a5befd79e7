import Mathlib.Data.Nat.Digits.Defs
import Mathlib.Logic.Function.Basic

set_option autoImplicit false

/-!
# Reports — `rt_snprintf`

`rt_vsnprintf` of `kservice.c`, as it is built for the board: `RT_PRINTF_PRECISION` is defined,
`RT_PRINTF_LONGLONG` and `RT_PRINTF_SPECIAL` are not, `long` and pointers have 32 bits.

* `signText`, `layout`, `printNumber`: `print_number`, as the list of characters it emits;
* `formatted`: the format loop, as the list of characters it emits;
* `emit`, `rtSnprintf`: the stores, each guarded by `str < end`, and the final NUL.
-/

namespace PipeGallery.Report

/-- An argument: a 32-bit word or a string. -/
inductive Arg where
  | num (w : BitVec 32)
  | str (s : List Char)
  deriving DecidableEq, Repr

/-- `va_arg(args, rt_uint32_t)`. -/
def Arg.toNum : Arg → BitVec 32
  | .num w => w
  | .str _ => 0

/-- `va_arg(args, char *)`. -/
def Arg.toStr : Arg → List Char
  | .num _ => []
  | .str s => s

/-- The flag bits `ZEROPAD`, `SIGN`, `PLUS`, `SPACE`, `LEFT`, `LARGE`. -/
structure Flags where
  zeropad : Bool := false
  sign : Bool := false
  plus : Bool := false
  space : Bool := false
  left : Bool := false
  large : Bool := false
  deriving DecidableEq, Repr

/-- `small_digits` and `large_digits`. -/
def digit (large : Bool) (d : ℕ) : Char :=
  if large then "0123456789ABCDEF".toList.getD d '0' else "0123456789abcdef".toList.getD d '0'

/-- The digits of `tmp`, least significant first; `divide` knows the bases 10 and 16 only. -/
def tmpDigits (large : Bool) (base num : ℕ) : List Char :=
  if num = 0 then ['0']
  else (Nat.digits (if base = 10 then 10 else 16) num).map (digit large)

/-- The counter after `while (size-- > 0)`. -/
def afterPad (size : ℤ) : ℤ := min size 0 - 1

/-- The second half of `print_number`: the sign and the digits of `tmp` in a field of width `s`. -/
def layout (sign tmp : List Char) (s precision : ℤ) (zeropad left : Bool) : List Char :=
  let i : ℤ := tmp.length
  let size := s - max i precision
  -- spaces in front, unless padded with zeros or on the right
  let spaces := !(zeropad || left)
  let size₁ := if spaces && !sign.isEmpty && decide (0 < size) then size - 1 else size
  let pad₁ := if spaces then List.replicate size₁.toNat ' ' else []
  let size₂ := (if spaces then afterPad size₁ else size₁) - sign.length
  let pad₂ := if left then [] else List.replicate size₂.toNat (if zeropad then '0' else ' ')
  let size₃ := if left then size₂ else afterPad size₂
  let zeros := List.replicate (max i precision - i).toNat '0'
  let body := if precision = 0 then [] else tmp.reverse
  pad₁ ++ sign ++ pad₂ ++ zeros ++ body ++ List.replicate size₃.toNat ' '

/-- `num < 0`, read as a signed word. -/
def isNeg (num : BitVec 32) : Bool := decide (num.toInt < 0)

/-- The sign character of `print_number`. -/
def signText (num : BitVec 32) (type : Flags) : List Char :=
  if !type.sign then []
  else if isNeg num then ['-']
  else if type.plus then ['+']
  else if type.space then [' ']
  else []

/-- `print_number`, with field width `s`. -/
def printNumber (num : BitVec 32) (base : ℕ) (s precision : ℤ) (type : Flags) : List Char :=
  let magnitude := if type.sign && isNeg num then -num else num
  layout (signText num type) (tmpDigits type.large base magnitude.toNat) s precision
    (type.zeropad && !type.left) type.left

/-- The flag characters. -/
def takeFlags : Flags → List Char → Flags × List Char
  | f, '-' :: fmt => takeFlags { f with left := true } fmt
  | f, '+' :: fmt => takeFlags { f with plus := true } fmt
  | f, ' ' :: fmt => takeFlags { f with space := true } fmt
  | f, '#' :: fmt => takeFlags f fmt
  | f, '0' :: fmt => takeFlags { f with zeropad := true } fmt
  | f, fmt => (f, fmt)

/-- `skip_atoi`. -/
def skipAtoi : ℕ → List Char → ℕ × List Char
  | n, c :: fmt => if c.isDigit then skipAtoi (n * 10 + (c.toNat - 48)) fmt else (n, c :: fmt)
  | n, [] => (n, [])

/-- What stands between `%` and the conversion. -/
structure Spec where
  flags : Flags
  width : ℤ
  precision : ℤ
  qualifier : Option Char

/-- The field width, `-1` when there is none. -/
def takeWidth (f : Flags) (fmt : List Char) (args : List Arg) :
    Flags × ℤ × List Char × List Arg :=
  match fmt with
  | '*' :: fmt =>
    let w := (args.headD (.num 0)).toNum.toInt
    if w < 0 then ({ f with left := true }, -w, fmt, args.tail) else (f, w, fmt, args.tail)
  | c :: fmt' =>
    if c.isDigit then
      let r := skipAtoi 0 (c :: fmt')
      (f, r.1, r.2, args)
    else (f, -1, fmt, args)
  | [] => (f, -1, fmt, args)

/-- The precision, `-1` when there is none. -/
def takePrecision (fmt : List Char) (args : List Arg) : ℤ × List Char × List Arg :=
  match fmt with
  | '.' :: '*' :: fmt => (max 0 (args.headD (.num 0)).toNum.toInt, fmt, args.tail)
  | '.' :: fmt =>
    let r := skipAtoi 0 fmt
    (r.1, r.2, args)
  | _ => (-1, fmt, args)

/-- The qualifier `h` or `l`. -/
def takeQualifier (fmt : List Char) : Option Char × List Char :=
  match fmt with
  | 'h' :: fmt => (some 'h', fmt)
  | 'l' :: fmt => (some 'l', fmt)
  | _ => (none, fmt)

/-- The number argument under a qualifier. -/
def qualified (q : Option Char) (sign : Bool) (w : BitVec 32) : BitVec 32 :=
  if q = some 'h' then
    if sign then (w.truncate 16).signExtend 32 else (w.truncate 16).zeroExtend 32
  else w

/-- One conversion: the characters emitted, the rest of the format, the rest of the arguments. -/
def convert (sp : Spec) (fmt : List Char) (args : List Arg) : List Char × List Char × List Arg :=
  let arg := args.headD (.num 0)
  let number (base : ℕ) (f : Flags) : List Char :=
    printNumber (qualified sp.qualifier f.sign arg.toNum) base sp.width sp.precision f
  match fmt with
  | 'c' :: fmt =>
    let pad := List.replicate (sp.width - 1).toNat ' '
    let c := Char.ofNat (arg.toNum.toNat % 256)
    (if sp.flags.left then c :: pad else pad ++ [c], fmt, args.tail)
  | 's' :: fmt =>
    let s := if 0 < sp.precision then arg.toStr.take sp.precision.toNat else arg.toStr
    let pad := List.replicate (sp.width - s.length).toNat ' '
    (if sp.flags.left then s ++ pad else pad ++ s, fmt, args.tail)
  | 'p' :: fmt =>
    if sp.width = -1 then
      (printNumber arg.toNum 16 8 sp.precision { sp.flags with zeropad := true }, fmt, args.tail)
    else (printNumber arg.toNum 16 sp.width sp.precision sp.flags, fmt, args.tail)
  | '%' :: fmt => (['%'], fmt, args)
  | 'o' :: fmt => (number 8 sp.flags, fmt, args.tail)
  | 'X' :: fmt => (number 16 { sp.flags with large := true }, fmt, args.tail)
  | 'x' :: fmt => (number 16 sp.flags, fmt, args.tail)
  | 'd' :: fmt => (number 10 { sp.flags with sign := true }, fmt, args.tail)
  | 'i' :: fmt => (number 10 { sp.flags with sign := true }, fmt, args.tail)
  | 'u' :: fmt => (number 10 sp.flags, fmt, args.tail)
  | c :: fmt => (['%', c], fmt, args)
  | [] => (['%'], [], args)

/-- The format loop; every turn consumes a character of the format. -/
def formatLoop : ℕ → List Char → List Arg → List Char
  | 0, _, _ => []
  | _ + 1, [], _ => []
  | n + 1, c :: fmt, args =>
    if c = '%' then
      let f := takeFlags {} fmt
      let w := takeWidth f.1 f.2 args
      let p := takePrecision w.2.2.1 w.2.2.2
      let q := takeQualifier p.2.1
      let r := convert ⟨w.1, w.2.1, p.1, q.1⟩ q.2 p.2.2
      r.1 ++ formatLoop n r.2.1 r.2.2
    else c :: formatLoop n fmt args

/-- The characters that the format and its arguments produce. -/
def formatted (fmt : List Char) (args : List Arg) : List Char := formatLoop fmt.length fmt args

/-! ## The stores -/

/-- Memory, by address. -/
abbrev Mem := ℕ → Char

/-- `if (str < end) *str = c; ++str`, for each character. -/
def emit (stop : ℕ) : Mem → ℕ → List Char → Mem × ℕ
  | m, str, [] => (m, str)
  | m, str, c :: cs => emit stop (if str < stop then Function.update m str c else m) (str + 1) cs

/-- `rt_snprintf`: the memory and the untruncated length. Addresses are 32-bit words. -/
def rtSnprintf (m : Mem) (buf size : ℕ) (fmt : List Char) (args : List Arg) : Mem × ℕ :=
  let wrapped := (buf + size) % 2 ^ 32
  let stop := if wrapped < buf then 2 ^ 32 - 1 else wrapped
  let r := emit stop m buf (formatted fmt args)
  let m' :=
    if 0 < stop - buf then
      if r.2 < stop then Function.update r.1 r.2 '\x00' else Function.update r.1 (stop - 1) '\x00'
    else r.1
  (m', r.2 - buf)

/-- The C string at `p`, looked for in `n` cells. -/
def cString (m : Mem) (p n : ℕ) : List Char :=
  ((List.range n).map fun i => m (p + i)).takeWhile fun c => decide (c ≠ '\x00')

end PipeGallery.Report
