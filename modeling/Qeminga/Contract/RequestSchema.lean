import Mathlib.Data.List.Induction
import Qeminga.Contract.DispatchAccounting
import Qeminga.Lib.Utf8

/-!
# The schema of a request

Which documents `parse_request` accepts, and what the request then holds.  The loop of `visit_map` ends at the first entry
it does not like, yet the entries may come in any order: what it has gathered is determined by the entries that it has
seen, as a set.
-/

namespace Qeminga

namespace Proto

open Dispatcher

variable {β : Type} {entries entries' : List (String × Json)} {entry : String × Json} {key : String}
  {decode : Json → Option β} {v v' : Visited} {req : Request}

/-! ### What the fields must be -/

def methodOf : Json → Option String
  | .string s => some s
  | _ => none

def argumentsOf : Json → Option Json
  | .object members => some (Json.object members).toValue
  | _ => none

/-- A number that is an integer in the range of `i64`. -/
def idOf : Json → Option Int
  | .number n => n.asI64
  | _ => none

/-- The field `key` of an object: it is missing, or it is there and stands for what `decode` makes of it. -/
def Field (entries : List (String × Json)) (key : String) (decode : Json → Option β) : Option β → Prop
  | none => ∀ x, (key, x) ∉ entries
  | some b => ∃ x, (key, x) ∈ entries ∧ decode x = some b

/-- The entries are those of a request, which is `req`. -/
structure Describes (entries : List (String × Json)) (req : Request) : Prop where
  nodup : (entries.map Prod.fst).Nodup
  known : ∀ entry ∈ entries, entry.1 ∈ ["execute", "arguments", "id"]
  execute : Field entries "execute" methodOf (some req.method)
  arguments : Field entries "arguments" argumentsOf req.arguments
  id : Field entries "id" idOf req.id

/-! ### The loop -/

theorem Describes.perm (h : Describes entries req) (hperm : entries.Perm entries') : Describes entries' req := by
  have hfield : ∀ {γ : Type} {key : String} {decode : Json → Option γ} {o : Option γ}, Field entries key decode o →
      Field entries' key decode o := by
    intro γ key decode o hfield
    cases o with
    | none => exact fun x hx => hfield x (hperm.mem_iff.2 hx)
    | some b =>
      obtain ⟨x, hx, hdecode⟩ := hfield
      exact ⟨x, hperm.mem_iff.1 hx, hdecode⟩
  exact {
    nodup := (hperm.map Prod.fst).nodup_iff.1 h.nodup
    known := fun entry he => h.known entry (hperm.mem_iff.2 he)
    execute := hfield h.execute
    arguments := hfield h.arguments
    id := hfield h.id }

end Proto

end Qeminga
