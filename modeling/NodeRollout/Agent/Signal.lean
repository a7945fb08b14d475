/-!
The names of the signals that can end a process.
-/
namespace NodeRollout.Signal

/-- The names of the signals from 1 on; those behind them have none. -/
def names : List String :=
  ["HUP", "INT", "QUIT", "ILL", "TRAP", "ABRT", "BUS", "FPE", "KILL", "USR1", "SEGV", "USR2", "PIPE",
    "ALRM", "TERM", "STKFLT", "CHLD", "CONT", "STOP", "TSTP", "TTIN", "TTOU", "URG", "XCPU", "XFSZ",
    "VTALRM", "PROF", "WINCH", "IO", "PWR", "SYS"]

def name? (signal : Nat) : Option String :=
  if signal = 0 then none else names[signal - 1]?

def ofName? (name : String) : Option Nat := (names.findIdx? (· == name)).map (· + 1)

end NodeRollout.Signal
