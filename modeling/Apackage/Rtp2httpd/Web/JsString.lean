import Mathlib.Data.List.DropRight
import Mathlib.Data.List.TakeWhile
import Apackage.Lib.TextCode

/-
  JavaScript strings, as far as the web player uses them: UTF-16 units, the blanks of `\s`
  and `trim`, and a replacement of runs.
-/

namespace Apackage.Rtp2httpd

open Lib.TextCode

abbrev JsString := List UInt16

/-- A character below 0x80 in a JavaScript string. -/
def jsChar (c : Char) : UInt16 := utf16Code.unit c

/-- `\s`; `trim` takes the same units for blanks. -/
def jsSpace (c : UInt16) : Bool :=
  (0x09 ≤ c && c ≤ 0x0D) || c = 0x20 || c = 0xA0 || c = 0x1680 || (0x2000 ≤ c && c ≤ 0x200A) ||
    c = 0x2028 || c = 0x2029 || c = 0x202F || c = 0x205F || c = 0x3000 || c = 0xFEFF

def jsTrim (s : JsString) : JsString := (s.dropWhile jsSpace).rdropWhile jsSpace

section

variable {α : Type*} (p : α → Bool) (r : α)

/-- Every run of `p` becomes one `r`, behind a text that ends in a run or not. -/
def squeezeFrom : Bool → List α → List α
  | _, [] => []
  | inRun, c :: rest =>
    if p c then
      if inRun then squeezeFrom true rest else r :: squeezeFrom true rest
    else c :: squeezeFrom false rest

/-- `replace(/[…]+/g, r)`. -/
def squeeze (s : List α) : List α := squeezeFrom p r false s

end

end Apackage.Rtp2httpd
