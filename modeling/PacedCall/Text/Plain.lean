/-!
Text as it is shown where no terminal reads it. What would only steer a terminal is left out:
control characters other than blanks and line ends, and escape sequences from the escape character
to the character that ends them. A blank or a line end inside a sequence breaks the sequence off.
-/
namespace PacedCall.Text

inductive Steering where
  | nothing
  | escape
  | designation
  | sequence
  | string (untilBell : Bool)
deriving DecidableEq

def isBlankControl (c : Char) : Bool := c == '\t' || c == '\n' || c == '\x0c' || c == '\r'

namespace Steering

def next (s : Steering) (c : Char) : Steering :=
  let n := c.toNat
  match s with
  | nothing => nothing
  | escape =>
    if 0x7F ≤ n then escape
    else if n < 0x30 then designation
    else if c == '[' then sequence
    else if c == ']' then string true
    else if c == 'P' || c == 'X' || c == '^' || c == '_' then string false
    else nothing
  | designation => if 0x30 ≤ n && n < 0x7F then nothing else designation
  | sequence => if 0x40 ≤ n && n < 0x7F then nothing else sequence
  | string untilBell => string untilBell

def step (s : Steering) (c : Char) : Steering × Bool :=
  if c == '\x1b' then (escape, false)
  else if c == '\x18' || c == '\x1a' then (nothing, false)
  else
    match s with
    | string untilBell => (if untilBell && c == '\x07' then nothing else s, false)
    | _ =>
      if isBlankControl c then (nothing, true)
      else if c.toNat < 0x20 || c == '\x7f' then (s, false)
      else (s.next c, s == nothing)

end Steering

def plainFrom : Steering → List Char → List Char
  | _, [] => []
  | s, c :: cs =>
    let (s, shown) := s.step c
    if shown then c :: plainFrom s cs else plainFrom s cs

/-- Without control characters, nothing is left out. -/
theorem plainFrom_eq_self {cs : List Char} (h : ∀ c ∈ cs, 0x20 ≤ c.toNat ∧ c.toNat ≠ 0x7F) :
    plainFrom .nothing cs = cs := by
  induction cs with
  | nil => rfl
  | cons c cs ih =>
    have hc := h c (by simp)
    have step : Steering.nothing.step c = (.nothing, true) := by
      have ne : ∀ d : Char, d.toNat < 0x20 → c ≠ d := by
        rintro d hd rfl
        omega
      have del : c ≠ '\x7f' := by
        rintro rfl
        exact hc.2 rfl
      simp [Steering.step, Steering.next, isBlankControl, ne, del, hc.1]
    simp [plainFrom, step, ih fun d hd => h d (by simp [hd])]

def plain (s : String) : String := String.ofList (plainFrom .nothing s.toList)

end PacedCall.Text
