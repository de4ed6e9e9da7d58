import ScriptBundler.Json.Reader

/-!
# Reading records

A record is written as an object with a member for each field, or as a list of
its fields in order.  No field may be written twice.
-/

namespace ScriptBundler
namespace Json

structure Field (α : Type) where
  name : String
  /-- Read the value and put it in. -/
  read : α → Reader α

structure RecordFormat (α : Type) where
  fields : List (Field α)
  /-- The record before any field is read. -/
  start : α
  /-- Fields that are not written keep their value from the start. -/
  allowsMissing : Bool
  /-- Members with other names are skipped. -/
  allowsUnknown : Bool

structure Reading (α : Type) where
  value : α
  seen : List String

namespace RecordFormat

open Reader

variable {α : Type}

def member (f : RecordFormat α) (r : Reading α) (key : String) : Reader (Reading α) := do
  match f.fields.find? (fun field => field.name == key) with
  | some field =>
      if key ∈ r.seen then throw .mismatched
      expect ':'
      return ⟨← field.read r.value, key :: r.seen⟩
  | none =>
      if !f.allowsUnknown then throw .mismatched
      expect ':'
      skip
      return r

def items (first : Bool) (r : Reading α) : List (Field α) → Reader (Reading α)
  | [] => return r
  | field :: rest => do
      if ← hasItem first then
        items false ⟨← field.read r.value, field.name :: r.seen⟩ rest
      else
        return r

/-- The end of the list of fields; a comma here is one item too many. -/
def endItems : Reader Unit := do
  match ← peek? with
  | some ']' => advance
  | some _ => throw .malformed
  | none => throw .ended

def isComplete (f : RecordFormat α) (r : Reading α) : Bool :=
  f.allowsMissing || f.fields.all (fun field => r.seen.contains field.name)

def complete (f : RecordFormat α) (r : Reading α) : Reader Unit := do
  if f.isComplete r then return () else throw .mismatched

def read (f : RecordFormat α) : Reader α := do
  match ← peek? with
  | some '[' =>
      advance
      let r ← items true ⟨f.start, []⟩ f.fields
      f.complete r
      endItems
      return r.value
  | some '\x7b' =>
      advance
      let r ← members f.member ⟨f.start, []⟩
      f.complete r
      return r.value
  | _ => mismatch

end RecordFormat
end Json
end ScriptBundler
