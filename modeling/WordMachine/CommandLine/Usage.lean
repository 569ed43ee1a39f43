import WordMachine.CommandLine.Grammar

namespace WordMachine.CommandLine

-- Whose usage is shown: the program's, or that of one of its modes.
inductive Screen where
  | program
  | asm
  | vm
  deriving DecidableEq, Repr

namespace Screen

def name : Screen → String
  | .program => "rvm"
  | .asm => "rvm asm"
  | .vm => "rvm vm"

def usage : Screen → String
  | .program => "usage: rvm [-h] [-v] \x7basm,vm\x7d ...\n"
  | .asm => "usage: rvm asm [-h] [-o OUTPUT] [--listing] source\n"
  | .vm => "usage: rvm vm [-h] [--mem WORDS] [--max-steps N] [--dump START:END] binary\n"

def details : Screen → List String
  | .program =>
      ["",
        "RVM assembler and virtual machine",
        "",
        "positional arguments:",
        "  \x7basm,vm\x7d",
        "    asm          Assemble SOURCE into a binary",
        "    vm           Load BINARY and run it",
        "",
        "options:",
        "  -h, --help     show this help message and exit",
        "  -v, --verbose  Increase log output (-v info, -vv debug)",
        "",
        "Examples:",
        "  python cli.py asm hello.asm -o hello.bin",
        "  python cli.py vm hello.bin",
        "  python cli.py -vv vm hello.bin --dump 0:8"]
  | .asm =>
      ["",
        "positional arguments:",
        "  source                Assembly source file",
        "",
        "options:",
        "  -h, --help            show this help message and exit",
        "  -o OUTPUT, --output OUTPUT",
        "                        Output binary (default: a.out)",
        "  --listing, -l         Print an assembly listing"]
  | .vm =>
      ["",
        "positional arguments:",
        "  binary            Program binary (big-endian words)",
        "",
        "options:",
        "  -h, --help        show this help message and exit",
        "  --mem WORDS       Memory size in words (default: 500)",
        "  --max-steps N     Stop with a fault after N instructions",
        "  --dump START:END  Print a memory slice after the run"]

def help (s : Screen) : String :=
  s.usage ++ String.join (s.details.map (· ++ "\n"))

-- What is said about a command line that cannot be used.
def complaint (s : Screen) (e : UsageError) : String :=
  s.usage ++ s!"{s.name}: error: {e.message}\n"

end Screen

end WordMachine.CommandLine
