import Webserv.Bytes

/-!
# The system under the server

The file system calls the server makes, over any type of file systems,
and what else a call reads from outside: the clock, random numbers, and
whether a descriptor or a process could be had. The clock is read once
for each event.
-/

universe u

namespace Webserv

open Bytes

/-- What is read of a `struct stat`. -/
structure FileStat where
  isDir : Bool
  ownerRead : Bool
deriving DecidableEq

/-- The calls on a file system `W`. A path is looked up as it is
written. -/
structure OS (W : Type u) where
  stat : W → Bytes → Option FileStat
  /-- the content an `ifstream` reads, if the file opens -/
  readFile : W → Bytes → Option Bytes
  /-- the names `readdir` returns, if the directory opens -/
  readDir : W → Bytes → Option (List Bytes)
  /-- `access(path, W_OK) == 0` -/
  writable : W → Bytes → Bool
  /-- the truncating `ofstream`: the new file system, and whether it opened -/
  writeFile : W → Bytes → Bytes → W × Bool
  /-- `remove`, `rmdir`: the new file system, and whether the call succeeded -/
  remove : W → Bytes → W × Bool
  rmdir : W → Bytes → W × Bool

/-- A file system where every path is a readable, empty file. -/
def flatOs : OS Unit where
  stat _ _ := some ⟨false, true⟩
  readFile _ _ := some []
  readDir _ _ := none
  writable _ _ := false
  writeFile w _ _ := (w, true)
  remove w _ := (w, true)
  rmdir w _ := (w, true)

/-- The local time, with `std::tm`'s fields. -/
structure Tm where
  year : Nat
  mon : Nat
  mday : Nat
  hour : Nat
  min : Nat
  sec : Nat
deriving DecidableEq

/-- What else one event reads from the system. -/
structure Env where
  now : Int
  localTime : Tm := ⟨124, 0, 1, 0, 0, 0⟩
  /-- the `Date` field's text for `now` -/
  httpDate : Bytes := []
  random : Nat := 0
  /-- the value of a `short` that was never written -/
  garbage : Int := 0
  openOk : Bool := true
  pipeOk : Bool := true
  forkOk : Bool := true
  addListenerOk : Bool := true

/-- Decimal output of at least two digits. -/
def decimal2 (n : Nat) : Bytes :=
  if n < 10 then 48 :: decimal n else decimal n

/-- `Utils::get_timestamp_str`, which writes the seconds twice. -/
def timestampStr (tm : Tm) : Bytes :=
  decimal (tm.year + 1900) ++ decimal2 (tm.mon + 1) ++ decimal2 tm.mday ++ decimal2 tm.hour
    ++ decimal2 tm.min ++ decimal2 tm.sec ++ decimal2 tm.sec

/-- `generate_session_id`: the local time and a random number. -/
def generateSessionId (env : Env) : Bytes :=
  decimal (env.localTime.year + 1900) ++ decimal2 (env.localTime.mon + 1)
    ++ decimal2 env.localTime.mday ++ decimal2 env.localTime.hour
    ++ decimal2 env.localTime.min ++ decimal2 env.localTime.sec
    ++ lit "_" ++ decimal (env.random % 10000)

end Webserv
