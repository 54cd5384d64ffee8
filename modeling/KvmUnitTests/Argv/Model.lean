import KvmUnitTests.Lib.CString

/-!
# The environment of a test

Source: `setup_env` and its helpers in `lib/argv.c`, `getenv` in `lib/string.c`.

The environment is a blob that the loader puts into memory: lines that end in newlines, or strings
that end in NULs. `setup_env` cuts it into strings in place and enters their addresses in the
table `__environ`, which has 200 places. An access behind the table or behind the blob is a fault.
The text that `env_invalid_eol` prints is kept in the state.
-/

set_option autoImplicit false

namespace KvmUnitTests.Argv

open Lib

/-- The number of places of `__environ`. -/
def nrEnviron : Nat := 200

/-- The blob, the table with the addresses of the variables, and the lines reported as invalid. -/
structure EnvState where
  mem : Buffer
  environ : Nat → Option Nat := fun _ => none
  printed : List Buffer := []

/-! ## Finding the next variable -/

/-- The end of a line. -/
def isEol (c : UInt8) : Bool := c == 0 || c == chr '\n'

def envEol (b : Buffer) (env : Nat) : Except Fault Nat := scan isEol b env

/-- The line is printed as a string, with a NUL in the place of its end for that time. -/
def envInvalidEol (s : EnvState) (env : Nat) : Except Fault (Nat × EnvState) := do
  let eol ← envEol s.mem env
  let eol_old ← load s.mem eol
  let mem ← store s.mem eol 0
  let stop ← scan (· == 0) mem env
  let printed := s.printed ++ [(mem.drop env).take (stop - env)]
  let mem ← store mem eol eol_old
  return (eol, { s with mem := mem, printed := printed })

/-- A character of a name. -/
def isKeyChar (c : UInt8) : Bool := isalnum c || c == chr '_'

/-- The loop over the name, on the characters from `p` on: where it ends, and whether one of its
characters is invalid. -/
def keyLoop : Buffer → Nat → Bool → Except Fault (Nat × Bool)
  | [], _, _ => .error .outOfBounds
  | c :: cs, p, invalid =>
    if isEol c || c == chr '=' then .ok (p, invalid)
    else keyLoop cs (p + 1) (invalid || !isKeyChar c)

/-- `env_next(env)`, with a bound on the depth of the recursion. -/
def envNext : Nat → EnvState → Nat → Except Fault (Nat × EnvState)
  | 0, _, _ => .error .outOfFuel
  | n + 1, s, env => do
    let c ← load s.mem env
    if c = 0 then return (env, s)
    if isalpha c || c == chr '_' then
      let (p, invalid) ← keyLoop (s.mem.drop (env + 1)) (env + 1) false
      let d ← load s.mem p
      if invalid || d != chr '=' then
        let (env, s) ← envInvalidEol s env
        if (← load s.mem env) ≠ 0 then envNext n s (env + 1) else return (env, s)
      else return (env, s)
    else
      let p ← scan (fun c => !isblank c) s.mem env
      let d ← load s.mem p
      if d = chr '\n' then envNext n s (p + 1)
      else
        let (env, s) ←
          if d = chr '#' then (envEol s.mem env).map fun eol => (eol, s) else envInvalidEol s env
        if (← load s.mem env) ≠ 0 then envNext n s (env + 1) else return (env, s)

/-! ## Filling the table -/

/-- The loop that ends a variable, on the characters from `env` on. It does not look at the place
`eof`. -/
def valueLoop (newline : Bool) (eof : Nat) : Buffer → Nat → Except Fault Nat
  | [], env => if env < eof then .error .outOfBounds else .ok env
  | c :: cs, env =>
    if env < eof then
      if c == 0 || (newline && c == chr '\n') then .ok env else valueLoop newline eof cs (env + 1)
    else .ok env

/-- `__environ[i] = env` -/
def setEnviron (s : EnvState) (i env : Nat) : Except Fault EnvState :=
  if i < nrEnviron then .ok { s with environ := Function.update s.environ i (some env) }
  else .error .outOfBounds

/-- `if (newline) env = env_next(env);` -/
def nextVariable (newline : Bool) (s : EnvState) (env : Nat) : Except Fault (Nat × EnvState) :=
  if newline then envNext (s.mem.length + 1) s env else .ok (env, s)

/-- The main loop of `setup_env`, with a bound on its iterations. -/
def setupLoop (newline : Bool) (eof : Nat) :
    Nat → Nat → Nat → EnvState → Except Fault EnvState
  | 0, _, _, _ => .error .outOfFuel
  | n + 1, i, env, s =>
    if env < eof then do
      let (env, s) ← nextVariable newline s env
      if (← load s.mem env) = 0 ∨ eof ≤ env then return s
      let s ← setEnviron s i env
      let env ← valueLoop newline eof (s.mem.drop env) env
      let mem ← store s.mem env 0
      setupLoop newline eof n (i + 1) (env + 1) { s with mem := mem }
    else .ok s

/-- `setup_env(env, size)`, where the object `mem` starts at `env`. -/
def setupEnv (mem : Buffer) (size : Nat) : Except Fault EnvState := do
  let p ← scan (· == 0) mem 0
  setupLoop (p == size) size (size + 1) 0 0 { mem }

/-! ## Lookup -/

/-- Read `environ[i]`. -/
def readEnviron (s : EnvState) (i : Nat) : Except Fault (Option Nat) :=
  if i < nrEnviron then .ok (s.environ i) else .error .outOfBounds

/-- The loop of `getenv` from the `i`th variable on, with a bound on its iterations. `name` is the
object of the name. -/
def getenvLoop (s : EnvState) (name : Buffer) : Nat → Nat → Except Fault (Option Nat)
  | 0, _ => .error .outOfFuel
  | n + 1, i => do
    match ← readEnviron s i with
    | none => return none
    | some env =>
      match ← strchr s.mem env (chr '=') with
      | none => .error (.assertFailed .getenv "delim")
      | some delim =>
        let len := delim - env
        if (← memcmp name s.mem 0 env len) = 0 then
          if (← load name len) = 0 then return some (delim + 1)
        getenvLoop s name n (i + 1)

/-- `getenv(name)`: the address of the value, or the null pointer. -/
def getenv (s : EnvState) (name : Buffer) : Except Fault (Option Nat) :=
  getenvLoop s name (nrEnviron + 1) 0

end KvmUnitTests.Argv
