import Ost.Osd.Execution

/-!
# Which commands are answered

Every error label of `exec_upper` ends the process, and the loops over the attribute lists do not
test that they stay in the buffer.  So a command is answered just when nothing is wrong with it.
-/

namespace Ost.Osd

open Ost.Iscsi Ost.Util Ost.Prog

variable {env : Env} {c : Command} {w w' : World}

/-- The command returns, and `command_done` was called once, with good status or with an error.
An access outside of a buffer is a fault, after which nothing returns. -/
def Answered (env : Env) (c : Command) (w : World) : Prop :=
  ∃ w', deviceCommand env c w = .ret ⟨⟩ w' ∧
    ∃ d : Completion, (d.status = 0 ∨ d.status = 2) ∧ w'.done = w.done ++ [d]

/-- The command is refused before it is executed, or nothing is wrong with it.  If `exec_lower`
executes it, the answer has to succeed as well. -/
def Harmless (env : Env) (c : Command) (w : World) : Prop :=
  c.Refused env ∨ c.Fits ∧ (c.Waits ∨ c.answered = true) ∧
    ∃ ext ∈ c.extCdb, UpperOk env.baseDir c.lun (osdDecapCdb c.cdb ext) c.buffer w

end Ost.Osd
