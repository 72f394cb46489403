import Sylar.Lib.Scanner

/-!
# The response machine

The automaton of `httpclient_parser.rl.cc`, which Ragel has made of
`httpclient_parser.rl`; it reads a status line with its headers, or the
size line of a chunk. State 1 is the start, 120 to 123 are final. A
`char` is signed there; 128 to 255 are its negative values.

The first edge of a state that is for a byte is the one it takes: the
names of the three headers the grammar knows are spelled out in front of
the edges of any name.
-/

namespace Sylar

open Scanner

/-- The actions, by their names in the grammar. -/
inductive ClientAction where
  | mark | startField | writeField | startValue | writeContentLen | writeConnectionClose
  | writeValue | reasonPhrase | statusCode | httpVersion | chunkSize | transChunked | done
deriving Repr, DecidableEq

namespace HttpClient

def one (n : Nat) : List (Nat × Nat) := [(n, n)]

/-- A lower case letter, in either case. -/
def letter (n : Nat) : List (Nat × Nat) := [(n - 32, n - 32), (n, n)]

/-- An edge without actions. -/
def go (on : List (Nat × Nat)) (target : Nat) : Edge ClientAction := ⟨on, [], target⟩

def digit : List (Nat × Nat) := [(48, 57)]

def xdigit : List (Nat × Nat) := [(48, 57), (65, 70), (97, 102)]

def token : List (Nat × Nat) :=
  [(33, 33), (35, 39), (42, 43), (45, 46), (48, 57), (65, 90), (94, 122), (124, 124), (126, 126)]

def blank : List (Nat × Nat) := [(9, 9), (11, 12), (32, 32)]

def space : List (Nat × Nat) := [(9, 13), (32, 32)]

def anyChar : List (Nat × Nat) := [(0, 9), (11, 12), (14, 255)]

/-- Inside the name of a header; `value` is the state behind the colon. -/
def inName (value : Nat) : List (Edge ClientAction) :=
  [go token 21, ⟨one 58, [.writeField], value⟩]

/-- Inside the value of a header. -/
def inValue : List (Edge ClientAction) :=
  [go anyChar 23, ⟨one 10, [.writeValue], 20⟩, ⟨one 13, [.writeValue], 24⟩]

/-- A chunk-size line, the status line and the headers; 1 is the start. -/
def lineStates : List (Nat × List (Edge ClientAction)) :=
  [(1, [⟨xdigit, [.mark], 2⟩, ⟨one 72, [.mark], 8⟩]),
    (2, [⟨one 10, [.chunkSize, .done], 120⟩, ⟨one 13, [.chunkSize], 3⟩, go xdigit 2,
      ⟨one 59, [.chunkSize], 4⟩]),
    (3, [⟨one 10, [.done], 120⟩]),
    (4, [⟨token, [.startField], 5⟩]),
    (5, [⟨one 10, [.writeField, .startValue, .writeValue, .done], 120⟩,
      ⟨one 13, [.writeField, .startValue, .writeValue], 3⟩, go token 5,
      ⟨one 59, [.writeField, .startValue, .writeValue], 4⟩,
      ⟨one 61, [.writeField, .startValue], 6⟩]),
    (6, [⟨token, [.startValue], 7⟩]),
    (7, [⟨one 10, [.writeValue, .done], 120⟩, ⟨one 13, [.writeValue], 3⟩, go token 7,
      ⟨one 59, [.writeValue], 4⟩]),
    (8, [go (one 84) 9]),
    (9, [go (one 84) 10]),
    (10, [go (one 80) 11]),
    (11, [go (one 47) 12]),
    (12, [go digit 13]),
    (13, [go (one 46) 14, go digit 13]),
    (14, [go digit 15]),
    (15, [⟨one 32, [.httpVersion], 16⟩, go digit 15]),
    (16, [⟨digit, [.mark], 17⟩]),
    (17, [⟨one 32, [.statusCode], 18⟩, go digit 17]),
    (18, [⟨[(0, 9), (11, 255)], [.mark], 19⟩]),
    (19, [go anyChar 19, ⟨one 10, [.reasonPhrase], 20⟩, ⟨one 13, [.reasonPhrase], 24⟩]),
    (20, [⟨one 10, [.done], 120⟩, go (one 13) 3, ⟨letter 99, [.startField], 25⟩,
      ⟨letter 116, [.startField], 44⟩, ⟨token, [.startField], 21⟩]),
    (21, inName 22),
    (22, [⟨[(0, 8), (14, 31), (33, 255)], [.startValue], 23⟩, ⟨blank, [.startValue], 22⟩,
      ⟨one 10, [.startValue, .writeValue], 20⟩, ⟨one 13, [.startValue, .writeValue], 24⟩]),
    (23, inValue),
    (24, [go (one 10) 20])]

/-- The header `Connection`. -/
def connectionStates : List (Nat × List (Edge ClientAction)) :=
  [(25, [go (letter 111) 26] ++ inName 22),
    (26, [go (letter 110) 27] ++ inName 22),
    (27, [go (letter 110) 28, go (letter 116) 101] ++ inName 22),
    (28, [go (letter 101) 29] ++ inName 22),
    (29, [go (letter 99) 30] ++ inName 22),
    (30, [go (letter 116) 31] ++ inName 22),
    (31, [go (letter 105) 32] ++ inName 22),
    (32, [go (letter 111) 33] ++ inName 22),
    (33, [go (letter 110) 34] ++ inName 22),
    (34, inName 35),
    (35, [⟨[(0, 8), (14, 31), (33, 66), (68, 98), (100, 255)], [.startValue], 23⟩,
      ⟨blank, [.startValue], 35⟩, ⟨one 10, [.startValue, .writeValue], 36⟩,
      ⟨one 13, [.startValue, .writeValue], 95⟩, ⟨letter 99, [.startValue], 96⟩]),
    (36, [go blank 37, ⟨one 10, [.done], 122⟩, go (one 13) 89, ⟨letter 99, [.startField], 90⟩,
      ⟨letter 116, [.startField], 44⟩, ⟨token, [.startField], 21⟩]),
    (37, [go space 37, go (letter 99) 38]),
    (38, [go (letter 108) 39]),
    (39, [go (letter 111) 40]),
    (40, [go (letter 115) 41]),
    (41, [go (letter 101) 42]),
    (42, [go (one 10) 43, go (one 13) 88]),
    (43, [⟨one 10, [.writeConnectionClose, .done], 120⟩, ⟨one 13, [.writeConnectionClose], 3⟩,
      ⟨letter 99, [.writeConnectionClose, .startField], 25⟩,
      ⟨letter 116, [.writeConnectionClose, .startField], 44⟩,
      ⟨token, [.writeConnectionClose, .startField], 21⟩]),
    (88, [go (one 10) 43]),
    (89, [go [(9, 9), (11, 13), (32, 32)] 37, ⟨one 10, [.done], 122⟩, go (letter 99) 38]),
    (90, [go (letter 108) 91, go (letter 111) 26] ++ inName 22),
    (91, [go (letter 111) 92] ++ inName 22),
    (92, [go (letter 115) 93] ++ inName 22),
    (93, [go (letter 101) 94] ++ inName 22),
    (94, [go (one 10) 43, go (one 13) 88] ++ inName 22),
    (95, [go [(9, 9), (11, 13), (32, 32)] 37, go (one 10) 36, go (letter 99) 38]),
    (96, [go (letter 108) 97] ++ inValue),
    (97, [go (letter 111) 98] ++ inValue),
    (98, [go (letter 115) 99] ++ inValue),
    (99, [go (letter 101) 100] ++ inValue),
    (100, [go anyChar 23, ⟨one 10, [.writeValue], 43⟩, ⟨one 13, [.writeValue], 88⟩])]

/-- The header `Transfer-Encoding`. -/
def transferEncodingStates : List (Nat × List (Edge ClientAction)) :=
  [(44, [go (letter 114) 45] ++ inName 22),
    (45, [go (letter 97) 46] ++ inName 22),
    (46, [go (letter 110) 47] ++ inName 22),
    (47, [go (letter 115) 48] ++ inName 22),
    (48, [go (letter 102) 49] ++ inName 22),
    (49, [go (letter 101) 50] ++ inName 22),
    (50, [go (letter 114) 51] ++ inName 22),
    (51, [go (one 45) 52] ++ inName 22),
    (52, [go (letter 101) 53] ++ inName 22),
    (53, [go (letter 110) 54] ++ inName 22),
    (54, [go (letter 99) 55] ++ inName 22),
    (55, [go (letter 111) 56] ++ inName 22),
    (56, [go (letter 100) 57] ++ inName 22),
    (57, [go (letter 105) 58] ++ inName 22),
    (58, [go (letter 110) 59] ++ inName 22),
    (59, [go (letter 103) 60] ++ inName 22),
    (60, inName 61),
    (61, [⟨[(0, 8), (14, 31), (33, 66), (68, 98), (100, 255)], [.startValue], 23⟩,
      ⟨blank, [.startValue], 61⟩, ⟨one 10, [.startValue, .writeValue], 62⟩,
      ⟨one 13, [.startValue, .writeValue], 80⟩, ⟨letter 99, [.startValue], 81⟩]),
    (62, [go blank 63, ⟨one 10, [.done], 121⟩, go (one 13) 72,
      ⟨letter 99, [.startValue, .startField], 73⟩, ⟨letter 116, [.startField], 44⟩,
      ⟨token, [.startField], 21⟩]),
    (63, [go space 63, ⟨letter 99, [.startValue], 64⟩]),
    (64, [go (letter 104) 65]),
    (65, [go (letter 117) 66]),
    (66, [go (letter 110) 67]),
    (67, [go (letter 107) 68]),
    (68, [go (letter 101) 69]),
    (69, [go (letter 100) 70]),
    (70, [⟨one 10, [.writeValue, .transChunked], 20⟩, ⟨one 13, [.writeValue], 71⟩]),
    (71, [⟨one 10, [.transChunked], 20⟩]),
    (72, [go [(9, 9), (11, 13), (32, 32)] 63, ⟨one 10, [.done], 121⟩,
      ⟨letter 99, [.startValue], 64⟩]),
    (73, [go (letter 104) 74, go (letter 111) 26] ++ inName 22),
    (74, [go (letter 117) 75] ++ inName 22),
    (75, [go (letter 110) 76] ++ inName 22),
    (76, [go (letter 107) 77] ++ inName 22),
    (77, [go (letter 101) 78] ++ inName 22),
    (78, [go (letter 100) 79] ++ inName 22),
    (79, [⟨one 10, [.writeValue, .transChunked], 20⟩, ⟨one 13, [.writeValue], 71⟩] ++ inName 22),
    (80, [go [(9, 9), (11, 13), (32, 32)] 63, go (one 10) 62, ⟨letter 99, [.startValue], 64⟩]),
    (81, [go (letter 104) 82] ++ inValue),
    (82, [go (letter 117) 83] ++ inValue),
    (83, [go (letter 110) 84] ++ inValue),
    (84, [go (letter 107) 85] ++ inValue),
    (85, [go (letter 101) 86] ++ inValue),
    (86, [go (letter 100) 87] ++ inValue),
    (87, [go anyChar 23, ⟨one 10, [.writeValue, .transChunked], 20⟩,
      ⟨one 13, [.writeValue], 71⟩])]

/-- The header `Content-Length`. -/
def contentLengthStates : List (Nat × List (Edge ClientAction)) :=
  [(101, [go (letter 101) 102] ++ inName 22),
    (102, [go (letter 110) 103] ++ inName 22),
    (103, [go (letter 116) 104] ++ inName 22),
    (104, [go (one 45) 105] ++ inName 22),
    (105, [go (letter 108) 106] ++ inName 22),
    (106, [go (letter 101) 107] ++ inName 22),
    (107, [go (letter 110) 108] ++ inName 22),
    (108, [go (letter 103) 109] ++ inName 22),
    (109, [go (letter 116) 110] ++ inName 22),
    (110, [go (letter 104) 111] ++ inName 22),
    (111, inName 112),
    (112, [⟨[(0, 8), (14, 31), (33, 47), (58, 255)], [.startValue], 23⟩,
      ⟨blank, [.startValue], 112⟩, ⟨one 10, [.startValue, .writeValue], 113⟩,
      ⟨one 13, [.startValue, .writeValue], 118⟩, ⟨digit, [.startValue], 119⟩]),
    (113, [go blank 114, ⟨one 10, [.done], 123⟩, go (one 13) 116,
      ⟨digit, [.startValue, .startField], 117⟩, ⟨letter 99, [.startField], 25⟩,
      ⟨letter 116, [.startField], 44⟩, ⟨token, [.startField], 21⟩]),
    (114, [go space 114, ⟨digit, [.startValue], 115⟩]),
    (115, [⟨one 10, [.writeContentLen, .writeValue], 20⟩,
      ⟨one 13, [.writeContentLen, .writeValue], 24⟩, go digit 115]),
    (116, [go [(9, 9), (11, 13), (32, 32)] 114, ⟨one 10, [.done], 123⟩,
      ⟨digit, [.startValue], 115⟩]),
    (117, [go digit 117, ⟨one 10, [.writeContentLen, .writeValue], 20⟩,
      ⟨one 13, [.writeContentLen, .writeValue], 24⟩] ++ inName 22),
    (118, [go [(9, 9), (11, 13), (32, 32)] 114, go (one 10) 113, ⟨digit, [.startValue], 115⟩]),
    (119, [go [(0, 9), (11, 12), (14, 47), (58, 255)] 23,
      ⟨one 10, [.writeContentLen, .writeValue], 20⟩,
      ⟨one 13, [.writeContentLen, .writeValue], 24⟩, go digit 119])]

/-- Behind an empty line that follows one of these headers without a value. -/
def endStates : List (Nat × List (Edge ClientAction)) :=
  [(121, [go space 63, ⟨letter 99, [.startValue], 64⟩]),
    (122, [go space 37, go (letter 99) 38]),
    (123, [go space 114, ⟨digit, [.startValue], 115⟩])]

def states : List (Nat × List (Edge ClientAction)) :=
  lineStates ++ connectionStates ++ transferEncodingStates ++ contentLengthStates ++ endStates

def machine : Table ClientAction := fun cs =>
  match states.find? (·.1 = cs) with
  | some row => row.2
  | none => []

def start : Nat := 1

def firstFinal : Nat := 120

/-- `done` ends with `fbreak`. -/
def stops (a : ClientAction) : Bool := a = .done

end HttpClient

end Sylar
