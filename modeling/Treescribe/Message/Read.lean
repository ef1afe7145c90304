import Treescribe.Message.Decode
import Treescribe.Tree.Table

/-!
# Reading programs

From the bytes of a message to the program in it.
-/

namespace Treescribe

/-- Why a message holds no program. -/
inductive ReadError where
  /-- The bytes are no message. -/
  | malformed
  | table (error : TableError)
deriving DecidableEq, Repr

/-- The program in a message, and what is reported about it. -/
def Message.read (bytes : List UInt8) : Except ReadError (Program × List Notice) :=
  match Message.decode? bytes with
  | none => .error .malformed
  | some message =>
    match Table.program message.rows with
    | .error error => .error (.table error)
    | .ok program => .ok (program, Table.notices message.rows program)

end Treescribe
