import Sylar.Lib.Scanner

/-!
# The HTTP/1.1 request machine

The automaton of `http11_parser.rl.cc`, which Ragel has made of
`http11_parser.rl`: for each state the bytes that lead on, the actions
on the way and the state they lead to. State 1 is the start, 348 and
349 are final. A `char` is signed there; 128 to 255 are its negative
values.

`uri_relaxed` decides whether `^`, `{` and `}` are allowed where the
other delimiters of a URI are.

The states 222 to 347 read a host in brackets after `@//` as 47 to 172
do in a request line; they are the same states, 175 further on.
-/

namespace Sylar

open Scanner

/-- The actions, by their names in the grammar. -/
inductive HttpAction where
  | mark | startField | writeField | startValue | writeValue | requestMethod | requestUri
  | fragment | startQuery | queryString | httpVersion | requestPath | done | xml | json
deriving Repr, DecidableEq

namespace Http11

def one (n : Nat) : List (Nat × Nat) := [(n, n)]

/-- An edge without actions. -/
def go (on : List (Nat × Nat)) (target : Nat) : Edge HttpAction := ⟨on, [], target⟩

def digit : List (Nat × Nat) := [(48, 57)]

def xdigit : List (Nat × Nat) := [(48, 57), (65, 70), (97, 102)]

def xalpha : List (Nat × Nat) := [(65, 70), (97, 102)]

def methodChar : List (Nat × Nat) := [(48, 57), (65, 90)]

def nameFirst : List (Nat × Nat) :=
  [(1, 8), (11, 12), (14, 31), (33, 33), (35, 39), (42, 43), (45, 46), (48, 57), (65, 90),
    (94, 122), (124, 124), (126, 126)]

def nameChar : List (Nat × Nat) :=
  [(1, 8), (10, 31), (33, 33), (35, 39), (42, 43), (45, 46), (48, 57), (65, 90), (94, 122),
    (124, 124), (126, 126)]

def nameAfterCr : List (Nat × Nat) :=
  [(1, 8), (11, 31), (33, 33), (35, 39), (42, 43), (45, 46), (48, 57), (65, 90), (94, 122),
    (124, 124), (126, 126)]

def pathFirst : List (Nat × Nat) :=
  [(33, 33), (36, 36), (38, 46), (48, 57), (59, 59), (61, 61), (64, 64), (95, 95), (126, 126)]

def segmentNzNc : List (Nat × Nat) :=
  [(33, 33), (36, 36), (38, 46), (48, 57), (59, 59), (61, 61), (64, 90), (95, 95), (97, 122),
    (126, 126)]

def pchar : List (Nat × Nat) :=
  [(33, 33), (36, 36), (38, 46), (48, 59), (61, 61), (64, 90), (95, 95), (97, 122), (126, 126),
    (128, 255)]

def pathChar : List (Nat × Nat) :=
  [(33, 33), (36, 36), (38, 59), (61, 61), (64, 90), (95, 95), (97, 122), (126, 126),
    (128, 255)]

def queryChar : List (Nat × Nat) :=
  [(33, 33), (36, 36), (38, 59), (61, 61), (63, 90), (95, 95), (97, 122), (126, 126),
    (128, 255)]

def regName : List (Nat × Nat) :=
  [(33, 33), (36, 36), (38, 46), (48, 57), (59, 59), (61, 61), (65, 90), (95, 95), (97, 122),
    (126, 126)]

def userInfo : List (Nat × Nat) :=
  [(33, 33), (36, 36), (38, 46), (48, 59), (61, 61), (65, 90), (95, 95), (97, 122), (126, 126)]

def afterPort : List (Nat × Nat) :=
  [(33, 33), (36, 36), (38, 46), (58, 59), (61, 61), (65, 90), (95, 95), (97, 122), (126, 126)]

def afterScheme : List (Nat × Nat) :=
  [(33, 33), (36, 36), (38, 42), (44, 44), (59, 59), (61, 61), (64, 64), (95, 95), (126, 126)]

/-- `more_delims`. -/
def moreDelims : List (Nat × Nat) := [(94, 94), (123, 123), (125, 125)]

/-- The request line and the headers. -/
def requestStates (relaxed : Bool) : List (Nat × List (Edge HttpAction)) :=
  let relax on := on ++ if relaxed then moreDelims else []
  [(1, [⟨methodChar, [.mark], 2⟩, ⟨one 60, [.mark], 194⟩, ⟨one 64, [.mark], 198⟩]),
    (2, [⟨one 32, [.requestMethod], 3⟩, go methodChar 175]),
    (3, [⟨one 32, [.mark, .requestPath, .requestUri], 4⟩, ⟨relax pathFirst, [.mark], 19⟩,
      ⟨one 35, [.mark, .requestPath, .requestUri], 20⟩, ⟨one 37, [.mark], 24⟩,
      ⟨one 47, [.mark], 33⟩, ⟨one 63, [.mark, .requestPath], 29⟩,
      ⟨[(65, 90), (97, 122)], [.mark], 173⟩]),
    (4, [⟨one 72, [.mark], 5⟩]),
    (5, [go (one 84) 6]),
    (6, [go (one 84) 7]),
    (7, [go (one 80) 8]),
    (8, [go (one 47) 9]),
    (9, [go (one 49) 10]),
    (10, [go (one 46) 11]),
    (11, [go [(48, 49)] 12]),
    (12, [⟨one 10, [.httpVersion], 13⟩, ⟨one 13, [.httpVersion], 17⟩]),
    (13, [⟨nameFirst, [.startField], 14⟩, ⟨one 10, [.startField, .done], 348⟩,
      ⟨one 13, [.startField], 18⟩]),
    (14, [go nameChar 14, ⟨one 58, [.writeField], 15⟩]),
    (15, [⟨[(1, 8), (11, 12), (14, 31), (33, 126), (128, 255)], [.startValue], 16⟩,
      ⟨[(9, 9), (32, 32)], [.startValue], 15⟩, ⟨one 10, [.startValue, .writeValue], 13⟩,
      ⟨one 13, [.startValue, .writeValue], 17⟩]),
    (16, [go [(1, 9), (11, 12), (14, 126), (128, 255)] 16, ⟨one 10, [.writeValue], 13⟩,
      ⟨one 13, [.writeValue], 17⟩]),
    (17, [go (one 10) 13]),
    (18, [go nameAfterCr 14, ⟨one 10, [.done], 348⟩, ⟨one 58, [.writeField], 15⟩]),
    (19, [⟨one 32, [.requestPath, .requestUri], 4⟩, go (relax segmentNzNc) 19,
      ⟨one 35, [.requestPath, .requestUri], 20⟩, go (one 37) 24, go (one 47) 26,
      ⟨one 63, [.requestPath], 29⟩]),
    (20, [⟨one 32, [.mark, .fragment], 4⟩, ⟨relax queryChar, [.mark], 21⟩,
      ⟨one 37, [.mark], 22⟩]),
    (21, [⟨one 32, [.fragment], 4⟩, go (relax queryChar) 21, go (one 37) 22]),
    (22, [go xdigit 23]),
    (23, [go xdigit 21]),
    (24, [go xdigit 25]),
    (25, [go xdigit 19]),
    (26, [⟨one 32, [.requestPath, .requestUri], 4⟩, go (relax pathChar) 26,
      ⟨one 35, [.requestPath, .requestUri], 20⟩, go (one 37) 27, ⟨one 63, [.requestPath], 29⟩]),
    (27, [go xdigit 28]),
    (28, [go xdigit 26]),
    (29, [⟨one 32, [.startQuery, .queryString, .requestUri], 4⟩,
      ⟨relax queryChar, [.startQuery], 30⟩,
      ⟨one 35, [.startQuery, .queryString, .requestUri], 20⟩, ⟨one 37, [.startQuery], 31⟩]),
    (30, [⟨one 32, [.queryString, .requestUri], 4⟩, go (relax queryChar) 30,
      ⟨one 35, [.queryString, .requestUri], 20⟩, go (one 37) 31]),
    (31, [go xdigit 32]),
    (32, [go xdigit 30]),
    (33, [⟨one 32, [.requestPath, .requestUri], 4⟩, go (relax pchar) 26,
      ⟨one 35, [.requestPath, .requestUri], 20⟩, go (one 37) 27, go (one 47) 34,
      ⟨one 63, [.requestPath], 29⟩]),
    (173, [⟨one 32, [.requestPath, .requestUri], 4⟩, go (relax afterScheme) 19,
      ⟨one 35, [.requestPath, .requestUri], 20⟩, go (one 37) 24,
      go [(43, 43), (45, 46), (48, 57), (65, 90), (97, 122)] 173, go (one 47) 26,
      go (one 58) 174, ⟨one 63, [.requestPath], 29⟩]),
    (174, [⟨one 32, [.mark, .requestPath, .requestUri], 4⟩, ⟨relax pchar, [.mark], 26⟩,
      ⟨one 35, [.mark, .requestPath, .requestUri], 20⟩, ⟨one 37, [.mark], 27⟩,
      ⟨one 47, [.mark], 33⟩, ⟨one 63, [.mark, .requestPath], 29⟩]),
    (175, [⟨one 32, [.requestMethod], 3⟩, go methodChar 176]),
    (176, [⟨one 32, [.requestMethod], 3⟩, go methodChar 177]),
    (177, [⟨one 32, [.requestMethod], 3⟩, go methodChar 178]),
    (178, [⟨one 32, [.requestMethod], 3⟩, go methodChar 179]),
    (179, [⟨one 32, [.requestMethod], 3⟩, go methodChar 180]),
    (180, [⟨one 32, [.requestMethod], 3⟩, go methodChar 181]),
    (181, [⟨one 32, [.requestMethod], 3⟩, go methodChar 182]),
    (182, [⟨one 32, [.requestMethod], 3⟩, go methodChar 183]),
    (183, [⟨one 32, [.requestMethod], 3⟩, go methodChar 184]),
    (184, [⟨one 32, [.requestMethod], 3⟩, go methodChar 185]),
    (185, [⟨one 32, [.requestMethod], 3⟩, go methodChar 186]),
    (186, [⟨one 32, [.requestMethod], 3⟩, go methodChar 187]),
    (187, [⟨one 32, [.requestMethod], 3⟩, go methodChar 188]),
    (188, [⟨one 32, [.requestMethod], 3⟩, go methodChar 189]),
    (189, [⟨one 32, [.requestMethod], 3⟩, go methodChar 190]),
    (190, [⟨one 32, [.requestMethod], 3⟩, go methodChar 191]),
    (191, [⟨one 32, [.requestMethod], 3⟩, go methodChar 192]),
    (192, [⟨one 32, [.requestMethod], 3⟩, go methodChar 193]),
    (193, [⟨one 32, [.requestMethod], 3⟩]),
    (348, [go nameChar 14, ⟨one 58, [.writeField], 15⟩])]

/-- What `//` begins. -/
def authorityStates (relaxed : Bool) : List (Nat × List (Edge HttpAction)) :=
  let relax on := on ++ if relaxed then moreDelims else []
  [(34, [⟨one 32, [.requestPath, .requestUri], 4⟩, go (relax regName) 35,
      ⟨one 35, [.requestPath, .requestUri], 20⟩, go (one 37) 36, go (one 47) 26, go (one 58) 38,
      ⟨one 63, [.requestPath], 29⟩, go (one 64) 42, go (one 91) 47]),
    (35, [⟨one 32, [.requestPath, .requestUri], 4⟩, go (relax regName) 35,
      ⟨one 35, [.requestPath, .requestUri], 20⟩, go (one 37) 36, go (one 47) 26, go (one 58) 38,
      ⟨one 63, [.requestPath], 29⟩, go (one 64) 42]),
    (36, [go xdigit 37]),
    (37, [go xdigit 35]),
    (38, [⟨one 32, [.requestPath, .requestUri], 4⟩, go (relax afterPort) 39,
      ⟨one 35, [.requestPath, .requestUri], 20⟩, go (one 37) 40, go (one 47) 26, go digit 38,
      ⟨one 63, [.requestPath], 29⟩, go (one 64) 42]),
    (39, [go (relax userInfo) 39, go (one 37) 40, go (one 64) 42]),
    (40, [go xdigit 41]),
    (41, [go xdigit 39]),
    (42, [⟨one 32, [.requestPath, .requestUri], 4⟩, go (relax regName) 43,
      ⟨one 35, [.requestPath, .requestUri], 20⟩, go (one 37) 44, go (one 47) 26, go (one 58) 46,
      ⟨one 63, [.requestPath], 29⟩, go (one 91) 47]),
    (43, [⟨one 32, [.requestPath, .requestUri], 4⟩, go (relax regName) 43,
      ⟨one 35, [.requestPath, .requestUri], 20⟩, go (one 37) 44, go (one 47) 26, go (one 58) 46,
      ⟨one 63, [.requestPath], 29⟩]),
    (44, [go xdigit 45]),
    (45, [go xdigit 43]),
    (46, [⟨one 32, [.requestPath, .requestUri], 4⟩, ⟨one 35, [.requestPath, .requestUri], 20⟩,
      go (one 47) 26, go digit 46, ⟨one 63, [.requestPath], 29⟩])]

/-- A host in brackets. `6( h16 ":" )` in the grammar does not repeat: it is
the byte 6 and one group. -/
def hostStates (relaxed : Bool) : List (Nat × List (Edge HttpAction)) :=
  let relax on := on ++ if relaxed then moreDelims else []
  [(47, [go (one 6) 48, go xdigit 91, go (one 58) 167, go (one 118) 169]),
    (48, [go xdigit 49]),
    (49, [go xdigit 50, go (one 58) 53]),
    (50, [go xdigit 51, go (one 58) 53]),
    (51, [go xdigit 52, go (one 58) 53]),
    (52, [go (one 58) 53]),
    (53, [go [(48, 48), (51, 57)] 54, go (one 49) 84, go (one 50) 87, go xalpha 90]),
    (54, [go (one 46) 55, go xdigit 77, go (one 58) 80]),
    (55, [go [(48, 48), (51, 57)] 56, go (one 49) 72, go (one 50) 74]),
    (56, [go (one 46) 57]),
    (57, [go [(48, 48), (51, 57)] 58, go (one 49) 67, go (one 50) 69]),
    (58, [go (one 46) 59]),
    (59, [go [(48, 48), (51, 57)] 60, go (one 49) 62, go (one 50) 64]),
    (60, [go (one 93) 61]),
    (61, [⟨one 32, [.requestPath, .requestUri], 4⟩, ⟨one 35, [.requestPath, .requestUri], 20⟩,
      go (one 47) 26, go (one 58) 46, ⟨one 63, [.requestPath], 29⟩]),
    (62, [go digit 63, go (one 93) 61]),
    (63, [go digit 60, go (one 93) 61]),
    (64, [go (one 48) 65, go (one 53) 66, go (one 93) 61]),
    (65, [go digit 60]),
    (66, [go (one 48) 60]),
    (67, [go (one 46) 59, go digit 68]),
    (68, [go (one 46) 59, go digit 58]),
    (69, [go (one 46) 59, go (one 48) 70, go (one 53) 71]),
    (70, [go digit 58]),
    (71, [go (one 48) 58]),
    (72, [go (one 46) 57, go digit 73]),
    (73, [go (one 46) 57, go digit 56]),
    (74, [go (one 46) 57, go (one 48) 75, go (one 53) 76]),
    (75, [go digit 56]),
    (76, [go (one 48) 56]),
    (77, [go xdigit 78, go (one 58) 80]),
    (78, [go xdigit 79, go (one 58) 80]),
    (79, [go (one 58) 80]),
    (80, [go xdigit 81]),
    (81, [go xdigit 82, go (one 93) 61]),
    (82, [go xdigit 83, go (one 93) 61]),
    (83, [go xdigit 60, go (one 93) 61]),
    (84, [go (one 46) 55, go digit 85, go (one 58) 80, go xalpha 77]),
    (85, [go (one 46) 55, go digit 86, go (one 58) 80, go xalpha 78]),
    (86, [go (one 46) 55, go xdigit 79, go (one 58) 80]),
    (87, [go (one 46) 55, go (one 48) 88, go [(49, 52), (54, 57), (65, 70), (97, 102)] 77,
      go (one 53) 89, go (one 58) 80]),
    (88, [go digit 86, go (one 58) 80, go xalpha 78]),
    (89, [go (one 48) 86, go [(49, 57), (65, 70), (97, 102)] 78, go (one 58) 80]),
    (90, [go xdigit 77, go (one 58) 80]),
    (91, [go xdigit 92, go (one 58) 95]),
    (92, [go xdigit 93, go (one 58) 95]),
    (93, [go xdigit 94, go (one 58) 95]),
    (94, [go (one 58) 95]),
    (95, [go xdigit 96, go (one 58) 166]),
    (96, [go xdigit 97, go (one 58) 100]),
    (97, [go xdigit 98, go (one 58) 100]),
    (98, [go xdigit 99, go (one 58) 100]),
    (99, [go (one 58) 100]),
    (100, [go xdigit 101, go (one 58) 165]),
    (101, [go xdigit 102, go (one 58) 105]),
    (102, [go xdigit 103, go (one 58) 105]),
    (103, [go xdigit 104, go (one 58) 105]),
    (104, [go (one 58) 105]),
    (105, [go xdigit 106, go (one 58) 164]),
    (106, [go xdigit 107, go (one 58) 110]),
    (107, [go xdigit 108, go (one 58) 110]),
    (108, [go xdigit 109, go (one 58) 110]),
    (109, [go (one 58) 110]),
    (110, [go xdigit 111, go (one 58) 163]),
    (111, [go xdigit 112, go (one 58) 115]),
    (112, [go xdigit 113, go (one 58) 115]),
    (113, [go xdigit 114, go (one 58) 115]),
    (114, [go (one 58) 115]),
    (115, [go xdigit 116, go (one 58) 151]),
    (116, [go xdigit 117, go (one 58) 120]),
    (117, [go xdigit 118, go (one 58) 120]),
    (118, [go xdigit 119, go (one 58) 120]),
    (119, [go (one 58) 120]),
    (120, [go xdigit 121, go (one 58) 150]),
    (121, [go xdigit 122, go (one 58) 125]),
    (122, [go xdigit 123, go (one 58) 125]),
    (123, [go xdigit 124, go (one 58) 125]),
    (124, [go (one 58) 125]),
    (125, [go xdigit 121, go (one 58) 126]),
    (126, [go [(2, 3)] 48, go [(48, 48), (51, 57)] 127, go (one 49) 143, go (one 50) 146,
      go xalpha 149, go (one 93) 61]),
    (127, [go (one 46) 55, go xdigit 128, go (one 58) 131, go (one 93) 61]),
    (128, [go xdigit 129, go (one 58) 131, go (one 93) 61]),
    (129, [go xdigit 130, go (one 58) 131, go (one 93) 61]),
    (130, [go (one 58) 131, go (one 93) 61]),
    (131, [go [(48, 48), (51, 57)] 132, go (one 49) 136, go (one 50) 139, go xalpha 142]),
    (132, [go (one 46) 55, go xdigit 133, go (one 58) 80, go (one 93) 61]),
    (133, [go xdigit 134, go (one 58) 80, go (one 93) 61]),
    (134, [go xdigit 135, go (one 58) 80, go (one 93) 61]),
    (135, [go (one 58) 80, go (one 93) 61]),
    (136, [go (one 46) 55, go digit 137, go (one 58) 80, go xalpha 133, go (one 93) 61]),
    (137, [go (one 46) 55, go digit 138, go (one 58) 80, go xalpha 134, go (one 93) 61]),
    (138, [go (one 46) 55, go xdigit 135, go (one 58) 80, go (one 93) 61]),
    (139, [go (one 46) 55, go (one 48) 140, go [(49, 52), (54, 57), (65, 70), (97, 102)] 133,
      go (one 53) 141, go (one 58) 80, go (one 93) 61]),
    (140, [go digit 138, go (one 58) 80, go xalpha 134, go (one 93) 61]),
    (141, [go (one 48) 138, go [(49, 57), (65, 70), (97, 102)] 134, go (one 58) 80,
      go (one 93) 61]),
    (142, [go xdigit 133, go (one 58) 80, go (one 93) 61]),
    (143, [go (one 46) 55, go digit 144, go (one 58) 131, go xalpha 128, go (one 93) 61]),
    (144, [go (one 46) 55, go digit 145, go (one 58) 131, go xalpha 129, go (one 93) 61]),
    (145, [go (one 46) 55, go xdigit 130, go (one 58) 131, go (one 93) 61]),
    (146, [go (one 46) 55, go (one 48) 147, go [(49, 52), (54, 57), (65, 70), (97, 102)] 128,
      go (one 53) 148, go (one 58) 131, go (one 93) 61]),
    (147, [go digit 145, go (one 58) 131, go xalpha 129, go (one 93) 61]),
    (148, [go (one 48) 145, go [(49, 57), (65, 70), (97, 102)] 129, go (one 58) 131,
      go (one 93) 61]),
    (149, [go xdigit 128, go (one 58) 131, go (one 93) 61]),
    (150, [go [(2, 3)] 48, go [(48, 48), (51, 57)] 127, go (one 49) 143, go (one 50) 146,
      go xalpha 149]),
    (151, [go [(2, 3)] 48, go [(48, 48), (51, 57)] 152, go (one 49) 156, go (one 50) 159,
      go xalpha 162]),
    (152, [go (one 46) 55, go xdigit 153, go (one 58) 131]),
    (153, [go xdigit 154, go (one 58) 131]),
    (154, [go xdigit 155, go (one 58) 131]),
    (155, [go (one 58) 131]),
    (156, [go (one 46) 55, go digit 157, go (one 58) 131, go xalpha 153]),
    (157, [go (one 46) 55, go digit 158, go (one 58) 131, go xalpha 154]),
    (158, [go (one 46) 55, go xdigit 155, go (one 58) 131]),
    (159, [go (one 46) 55, go (one 48) 160, go [(49, 52), (54, 57), (65, 70), (97, 102)] 153,
      go (one 53) 161, go (one 58) 131]),
    (160, [go digit 158, go (one 58) 131, go xalpha 154]),
    (161, [go (one 48) 158, go [(49, 57), (65, 70), (97, 102)] 154, go (one 58) 131]),
    (162, [go xdigit 153, go (one 58) 131]),
    (163, [go [(2, 3)] 48, go xdigit 49]),
    (164, [go [(2, 3)] 48]),
    (165, [go (one 3) 48]),
    (166, [go (one 4) 48]),
    (167, [go (one 58) 168]),
    (168, [go [(2, 5)] 48, go [(48, 48), (51, 57)] 127, go (one 49) 143, go (one 50) 146,
      go xalpha 149, go (one 93) 61]),
    (169, [go xdigit 170]),
    (170, [go (one 46) 171, go xdigit 170]),
    (171, [go (relax userInfo) 172]),
    (172, [go (relax userInfo) 172, go (one 93) 61])]

/-- The two other kinds of request, `<..>` and `@path {..}`. -/
def socketStates (relaxed : Bool) : List (Nat × List (Edge HttpAction)) :=
  let relax on := on ++ if relaxed then moreDelims else []
  [(194, [go [(45, 46), (48, 57), (65, 90), (97, 122)] 195]),
    (195, [⟨[(9, 13), (32, 32), (47, 47), (62, 62)], [.requestPath], 196⟩,
      go [(45, 46), (48, 57), (65, 90), (97, 122)] 195]),
    (196, [go [(0, 61), (63, 255)] 196, go (one 62) 197]),
    (197, [⟨one 0, [.xml, .done], 349⟩, go [(1, 61), (63, 255)] 196, go (one 62) 197]),
    (198, [⟨one 32, [.requestPath], 199⟩, go (relax segmentNzNc) 202, go (one 37) 203,
      go (one 47) 208]),
    (199, [⟨one 123, [.mark], 200⟩]),
    (200, [go [(0, 124), (126, 255)] 200, go (one 125) 201]),
    (201, [⟨one 0, [.json, .done], 349⟩, go [(1, 124), (126, 255)] 200, go (one 125) 201]),
    (202, [⟨one 32, [.requestPath], 199⟩, go (relax segmentNzNc) 202, go (one 37) 203,
      go (one 47) 205]),
    (203, [go xdigit 204]),
    (204, [go xdigit 202]),
    (205, [⟨one 32, [.requestPath], 199⟩, go (relax pathChar) 205, go (one 37) 206]),
    (206, [go xdigit 207]),
    (207, [go xdigit 205]),
    (208, [⟨one 32, [.requestPath], 199⟩, go (relax pchar) 205, go (one 37) 206,
      go (one 47) 209]),
    (209, [⟨one 32, [.requestPath], 199⟩, go (relax regName) 210, go (one 37) 211,
      go (one 47) 205, go (one 58) 213, go (one 64) 217, go (one 91) 222]),
    (210, [⟨one 32, [.requestPath], 199⟩, go (relax regName) 210, go (one 37) 211,
      go (one 47) 205, go (one 58) 213, go (one 64) 217]),
    (211, [go xdigit 212]),
    (212, [go xdigit 210]),
    (213, [⟨one 32, [.requestPath], 199⟩, go (relax afterPort) 214, go (one 37) 215,
      go (one 47) 205, go digit 213, go (one 64) 217]),
    (214, [go (relax userInfo) 214, go (one 37) 215, go (one 64) 217]),
    (215, [go xdigit 216]),
    (216, [go xdigit 214]),
    (217, [⟨one 32, [.requestPath], 199⟩, go (relax regName) 218, go (one 37) 219,
      go (one 47) 205, go (one 58) 221, go (one 91) 222]),
    (218, [⟨one 32, [.requestPath], 199⟩, go (relax regName) 218, go (one 37) 219,
      go (one 47) 205, go (one 58) 221]),
    (219, [go xdigit 220]),
    (220, [go xdigit 218]),
    (221, [⟨one 32, [.requestPath], 199⟩, go (one 47) 205, go digit 221]),
    (236, [⟨one 32, [.requestPath], 199⟩, go (one 47) 205, go (one 58) 221])]

/-- A host state after `@//`. -/
def shift (row : Nat × List (Edge HttpAction)) : Nat × List (Edge HttpAction) :=
  (row.1 + 175, row.2.map fun e => { e with target := e.target + 175 })

def states (relaxed : Bool) : List (Nat × List (Edge HttpAction)) :=
  requestStates relaxed ++ authorityStates relaxed ++ hostStates relaxed ++ socketStates relaxed ++
    ((hostStates relaxed).filter (·.1 ≠ 61)).map shift

def machine (relaxed : Bool) : Table HttpAction := fun cs =>
  match (states relaxed).find? (·.1 = cs) with
  | some row => row.2
  | none => []

def start : Nat := 1

def firstFinal : Nat := 348

/-- `done` ends with `fbreak`. -/
def stops (a : HttpAction) : Bool := a = .done

end Http11

end Sylar
