import Hmix.Common.Machine
import Hmix.Common.Wp
import Hmix.Model.Imports
import Hmix.Model.Storage

/-!
# The terminal

A line of input with a history. The first entry of the history is the draft;
the others are commands that were executed, the newest first. An arrow key
stores the input in the entry it leaves, whichever that is, and loads the one
it comes to. The input is `undefined` until something is typed.
-/

namespace Hmix

/-- A command that was executed, and what its entry was changed to: an entry
that is recalled and edited keeps the edit when an arrow key leaves it. -/
structure Executed where
  command : String
  kept : Option String
  deriving DecidableEq

/-- What the entry of the command has. -/
def Executed.shown (c : Executed) : String := c.kept.getD c.command

/-- An arrow key leaves the entry with this input. -/
def Executed.leave (input : Option String) (c : Executed) : Executed :=
  if input = some c.shown then c else { c with kept := input }

/-- **The terminal**: `TerminalComponent`, the logs of the service, and the
calls it has made. What was executed is kept for the statements only. -/
structure Terminal where
  terminalCommand : Option String
  commandHistory : List (Option String)
  historyIndex : ℤ
  logs : List String
  /-- The `rawCall`s of the terminal: a method, and its arguments. -/
  calls : List (String × List String)
  /-- The commands that were executed, the newest first. -/
  executed : List Executed

/-- What happens in the terminal. -/
inductive TerminalEvent where
  /-- Typing, which leaves the input with `text`. -/
  | type (text : String)
  | arrowUp
  | arrowDown
  | enter
  /-- Something is logged: what a call returned, for instance. -/
  | log (status : String)
  deriving DecidableEq

namespace Terminal

/-- The terminal as it is constructed. -/
def new : Terminal := ⟨none, [some ""], 0, [], [], []⟩

/-- **`loadCommandFromHistory`.** The index is always one of the history, so
the assignment adds no entry. -/
def loadCommandFromHistory (direction : ℤ) (t : Terminal) : Terminal :=
  let commandHistory := t.commandHistory.set t.historyIndex.toNat t.terminalCommand
  let moved := t.historyIndex + direction
  let historyIndex : ℤ :=
    if moved < 0 then 0
    else if moved ≥ commandHistory.length then commandHistory.length - 1
    else moved
  { t with
    commandHistory := commandHistory
    historyIndex := historyIndex
    terminalCommand := (commandHistory[historyIndex.toNat]?).join
    executed :=
      if t.historyIndex = 0 then t.executed
      else t.executed.modify (t.historyIndex.toNat - 1) (.leave t.terminalCommand) }

/-- **`handleCommand`.** It asks the input for `trim` before anything else. -/
def handleCommand : EStateM Thrown Terminal PUnit := do
  let t ← get
  match t.terminalCommand with
  | none => throw .typeError
  | some terminalCommand =>
    if terminalCommand.toList.all whiteSpace then
      return
    else
      modify fun t => { t with
        commandHistory := t.commandHistory.take 1 ++ some terminalCommand :: t.commandHistory.drop 1
        historyIndex := 0
        executed := ⟨terminalCommand, none⟩ :: t.executed }
      let splitCommand := (terminalCommand.toList.splitOn ' ').map String.ofList
      let command := splitCommand.headD ""
      if command = "clear" then
        modify fun t => { t with logs := [] }
      else
        modify fun t => { t with calls := t.calls ++ [(command, splitCommand.tail)] }
      modify fun t => { t with terminalCommand := some "" }

end Terminal

/-- The program an event runs. -/
def TerminalEvent.exec : TerminalEvent → EStateM Thrown Terminal PUnit
  | .type text => modify fun t => { t with terminalCommand := some text }
  | .arrowUp => modify (Terminal.loadCommandFromHistory 1)
  | .arrowDown => modify (Terminal.loadCommandFromHistory (-1))
  | .enter => Terminal.handleCommand
  | .log status => modify fun t => { t with logs := t.logs ++ [status] }

/-- **The terminal of a page**, from when it is constructed. -/
def terminalDesk : Machine Terminal TerminalEvent where
  start := fun t => t = Terminal.new
  enabled := fun _ _ => True
  step := fun t e => after e.exec t

end Hmix
