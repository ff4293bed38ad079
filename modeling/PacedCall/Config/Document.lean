import PacedCall.Config
import PacedCall.Text.Quoted

/-!
Configurations read from and written to documents. A configuration is a record of its three
fields, or a list of the three in order.
-/
namespace PacedCall
namespace Config

inductive Datum where
  | null
  | bool (b : Bool)
  | integer (i : Int)
  | text (s : String)
  | list
  | record

inductive Document where
  | record (fields : List (String × Datum))
  | list (items : List Datum)
  | other (d : Datum)

inductive Field where
  | inbound
  | outbound
  | deadline
deriving DecidableEq

inductive Misfit where
  | document (d : Datum)
  | type (f : Field) (d : Datum)
  | value (f : Field) (i : Int)
  | missing (f : Field)
  | short (n : Nat)
  | long (n : Nat)

namespace Field

def name : Field → String
  | inbound => "inbound_capacity"
  | outbound => "outbound_capacity"
  | deadline => "deadline_ms"

def kind : Field → String
  | deadline => "u64"
  | _ => "usize"

end Field

namespace Datum

def shown : Datum → String
  | null => "null"
  | bool b => "boolean \x60" ++ toString b ++ "\x60"
  | integer i => "integer \x60" ++ toString i ++ "\x60"
  | text s => "string " ++ Text.quoted s
  | list => "sequence"
  | record => "map"

def word (f : Field) : Datum → Except Misfit Nat
  | integer i => if 0 ≤ i ∧ i ≤ maxWord then .ok i.toNat else .error (.value f i)
  | d => .error (.type f d)

def word? (f : Field) : Datum → Except Misfit (Option Nat)
  | null => .ok none
  | d => (d.word f).map some

end Datum

namespace Misfit

def message : Misfit → String
  | document d => "invalid type: " ++ d.shown ++ ", expected struct FlowConfig"
  | type f d => "invalid type: " ++ d.shown ++ ", expected " ++ f.kind
  | value f i => "invalid value: " ++ (Datum.integer i).shown ++ ", expected " ++ f.kind
  | missing f => "missing field \x60" ++ f.name ++ "\x60"
  | short n =>
    "invalid length " ++ toString n ++ ", expected struct FlowConfig with 3 elements"
  | long n => "invalid length " ++ toString n ++ ", expected fewer elements in array"

end Misfit

def required (f : Field) : Option Nat → Except Misfit Nat
  | some n => .ok n
  | none => .error (.missing f)

/-- Fields are looked at in the order of their names, and only then missed. -/
def ofFields (fields : List (String × Datum)) : Except Misfit Config := do
  let deadline ←
    match fields.lookup Field.deadline.name with
    | some d => d.word? .deadline
    | none => .ok none
  let inbound ← (fields.lookup Field.inbound.name).mapM (Datum.word .inbound)
  let outbound ← (fields.lookup Field.outbound.name).mapM (Datum.word .outbound)
  let inbound ← required .inbound inbound
  let outbound ← required .outbound outbound
  return ⟨inbound, outbound, deadline⟩

def ofItems (items : List Datum) : Except Misfit Config :=
  match items with
  | [] => .error (.short 0)
  | a :: items => do
    let inbound ← a.word .inbound
    match items with
    | [] => .error (.short 1)
    | b :: items =>
      let outbound ← b.word .outbound
      match items with
      | [] => .error (.short 2)
      | c :: more =>
        let deadline ← c.word? .deadline
        if more.isEmpty then return ⟨inbound, outbound, deadline⟩
        else .error (.long (more.length + 3))

def ofDocument : Document → Except Misfit Config
  | .record fields => ofFields fields
  | .list items => ofItems items
  | .other d => .error (.document d)

def fields (c : Config) : List (String × Option Nat) :=
  [(Field.deadline.name, c.deadlineMs), (Field.inbound.name, some c.inboundCapacity),
    (Field.outbound.name, some c.outboundCapacity)]

end Config
end PacedCall
