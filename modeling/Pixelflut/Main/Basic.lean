import Mathlib.Logic.Function.Basic
import Pixelflut.Lib.Jump
import Pixelflut.Lib.Lifetime
import Pixelflut.Framebuffer.Basic
import Pixelflut.Frontend.Spec

/-!
# `main`

The command line is what `getopt` makes of it, with the numbers that `atoi`
reads; the answers of the functions that `main` calls are parameters. A block
ends or jumps to a label. The text of a frontend specification stays with its
address in `frontend_names`; `before COMMA` is what `frontend_spec_extract_name`
leaves of it, and `after COMMA` what it returns.

`trace` is no variable of the program: it records when a name, a frontend or the
framebuffer is allocated, used and freed. `handle_signals`, which nothing reads,
the texts of the overlay and the clock are left out.
-/

namespace Pixelflut.Main

open Function (update)
open Lib.Jump Lib.Lifetime Frontend Framebuffer

def MAX_FRONTENDS : Nat := 16

abbrev Ptr := Nat

/-! ## Frontends -/

/-- A `struct frontend_def`: its name, and whether it has `args`, `ops->start` and
`ops->draw_string`. -/
structure FrontendDef where
  name : String
  canConfigure : Bool
  canStart : Bool
  canDrawString : Bool

def frontSdl : FrontendDef := ⟨"SDL2 Frontend", false, false, false⟩

def frontVnc : FrontendDef := ⟨"VNC server frontend", true, true, true⟩

def frontends : List (Text × FrontendDef) :=
  [(ascii ['s', 'd', 'l'], frontSdl), (ascii ['v', 'n', 'c'], frontVnc)]

def frontendGetDef (id : Text) : Option FrontendDef := (frontends.find? (·.1 = id)).map (·.2)

/-! ## States -/

/-- A name in `frontend_names`. -/
structure Name where
  addr : Ptr
  text : Text

/-- A frontend on the list `fronts`. -/
structure Front where
  addr : Ptr
  definition : FrontendDef

structure State where
  width : Int32
  height : Int32
  screenUpdateRate : Int32
  showTextualInfo : Bool
  frontendCnt : Nat
  frontendNames : Nat → Name
  fb : Ptr
  fronts : List Front
  err : Int
  /-- The address of the next object. -/
  next : Ptr
  trace : List (Event Ptr)

def State.alloc (s : State) : State :=
  { s with next := s.next + 1, trace := s.trace ++ [.alloc s.next] }

def State.use (s : State) (ps : List Ptr) : State := { s with trace := s.trace ++ ps.map .use }

def State.free (s : State) (p : Ptr) : State := { s with trace := s.trace ++ [.free p] }

inductive Label where
  | fail
  | failFrontsFreeName

/-- A block of `main`. -/
abbrev Block := Except (Label × State) State

def goto (label : Label) (s : State) : Block := .error (label, s)

/-! ## Options -/

/-- What `getopt` returns; `ok` is the answer of `strdup`. -/
inductive Opt where
  | w (arg : Int32)
  | h (arg : Int32)
  | r (arg : Int32)
  | f (arg : Text) (ok : Bool)
  | d
  | other

def parseOption (s : State) : Opt → Block
  | .w arg => if arg ≤ 0 then goto .fail { s with err := -EINVAL } else .ok { s with width := arg }
  | .h arg => if arg ≤ 0 then goto .fail { s with err := -EINVAL } else .ok { s with height := arg }
  | .r arg =>
    if arg ≤ 0 then goto .fail { s with err := -EINVAL } else .ok { s with screenUpdateRate := arg }
  | .f arg ok =>
    if s.frontendCnt ≥ MAX_FRONTENDS then goto .fail { s with err := -EINVAL }
    else if !ok then goto .fail { s with err := -ENOMEM }
    else .ok { s.alloc with
      frontendNames := update s.frontendNames s.frontendCnt ⟨s.next, arg⟩
      frontendCnt := s.frontendCnt + 1 }
  | .d => .ok { s with showTextualInfo := false }
  | .other => goto .fail { s with err := -EINVAL }

/-! ## Registration -/

/-- What the steps of one registration return. -/
structure FrontAnswers where
  alloc : Int
  configure : Int
  start : Int
  font : Int

/-- A step of a registration that is made under the condition `cond`, uses the
objects `ps` and returns `err`. -/
def attempt (cond : Bool) (ps : List Ptr) (err : Int) (s : State) : Block :=
  if !cond then .ok s
  else if err ≠ 0 then goto .failFrontsFreeName { s.use ps with err := err }
  else .ok { s.use ps with err := err }

def State.appendFront (s : State) (frontdef : FrontendDef) : State :=
  { s.alloc.use [s.next] with fronts := s.fronts ++ [⟨s.next, frontdef⟩], err := 0 }

/-- The body of the loop that registers the frontends. -/
def registerFrontend (answers : Nat → FrontAnswers) (s : State) : Block := do
  let a := answers s.frontendCnt
  let frontid := (s.frontendNames s.frontendCnt).addr
  let id := before COMMA (s.frontendNames s.frontendCnt).text
  let options := after COMMA (s.frontendNames s.frontendCnt).text
  let s := s.use [frontid]
  match frontendGetDef id with
  | none => goto .failFrontsFreeName (s.use [frontid])
  | some frontdef =>
    let s := s.use [s.fb]
    if a.alloc ≠ 0 then goto .failFrontsFreeName { s with err := a.alloc }
    else
      let front := s.next
      let s := s.appendFront frontdef
      let s ← attempt (frontdef.canConfigure && options.isSome) [front, frontid] a.configure s
      let s ← attempt frontdef.canStart [front] a.start s
      let s ← attempt (frontdef.name = "VNC server frontend") [front] a.font s
      return s.free frontid

/-- The loop, with `n` for `frontend_cnt`. -/
def registerFrontends (answers : Nat → FrontAnswers) : Nat → State → Block
  | 0, s => .ok s
  | n + 1, s => do
    let s ← registerFrontend answers { s with frontendCnt := n }
    registerFrontends answers n s

/-! ## The main loop -/

/-- One pass of `llist_for_each`, with the result of each `frontend_update`, and
whether `doshutdown` was called. -/
def updateFronts (update : Nat → Int) : Nat → List Front → State → State × Bool
  | _, [], s => (s, false)
  | k, front :: rest, s =>
    let s := if s.showTextualInfo && front.definition.canDrawString then
        s.use [front.addr, s.fb, front.addr, s.fb, front.addr, s.fb, front.addr, s.fb]
      else s
    let s := { s.use [front.addr, s.fb] with err := update k }
    if update k ≠ 0 then (s.use [front.addr], true)
    else updateFronts update (k + 1) rest s

structure Iteration where
  update : Nat → Int
  /-- A second is over: the counters of the framebuffer are read. -/
  fps : Bool

/-- `while(!do_exit)`; when no iteration is left, `do_exit` has been set elsewhere. -/
def mainLoop : List Iteration → State → State
  | [], s => s
  | i :: rest, s =>
    let (s, doExit) := updateFronts i.update 0 s.fronts s
    let s := if i.fps then s.use [s.fb] else s
    if doExit then s else mainLoop rest s

/-! ## The labels -/

/-- The loop at `fail`, with `n` for `frontend_cnt`. -/
def freeNames : Nat → State → State
  | 0, s => { s with frontendCnt := 0 }
  | n + 1, s => freeNames n (s.free (s.frontendNames n).addr)

def atFail (s : State) : State := freeNames s.frontendCnt s

def freeFronts (s : State) : List Front → State
  | [] => s
  | front :: rest => freeFronts ((s.use [front.addr]).free front.addr) rest

def atFailFronts (s : State) : State :=
  let s := freeFronts s s.fronts
  atFail (s.free s.fb)

def atFailFrontsFreeName (s : State) : State :=
  atFailFronts { s with frontendCnt := s.frontendCnt + 1 }

/-! ## `main` -/

structure Answers where
  workqueueInit : Int
  fbAlloc : Int
  front : Nat → FrontAnswers
  netListen : Int
  iterations : List Iteration

/-- `fb_alloc` has succeeded, and `llist_init(&fronts)` is made. -/
def State.allocFb (s : State) : State :=
  { s.alloc with fb := s.next, fronts := [], err := 0 }

def setup (opts : List Opt) (a : Answers) (s : State) : Block := do
  let s ← opts.foldlM parseOption s
  if a.workqueueInit ≠ 0 then goto .fail { s with err := a.workqueueInit }
  else if a.fbAlloc ≠ 0 then goto .fail { s with err := a.fbAlloc }
  else
    let s ← registerFrontends a.front s.frontendCnt s.allocFb
    let s := { s.use [s.fb] with err := a.netListen }
    if a.netListen ≠ 0 then goto .fail s else return s

/-- The variables at the start; `names` and `err` are not initialised. -/
def start (names : Nat → Name) (err : Int) : State :=
  ⟨1024, 768, 60, true, 0, names, 0, [], err, 0, []⟩

/-- The state in which `main` returns `err`, but for `workqueue_deinit`. -/
def main (opts : List Opt) (a : Answers) (s : State) : State :=
  match setup opts a s with
  | .ok s => atFailFronts (mainLoop a.iterations s)
  | .error (.fail, s) => atFail s
  | .error (.failFrontsFreeName, s) => atFailFrontsFreeName s

end Pixelflut.Main
