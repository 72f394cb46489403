import Sylar.Lib.Scanner

/-!
# The URI machine

The automaton of `uri.cc`, which Ragel has made of `uri.rl`: for each
state the bytes that lead on, the actions on the way and the state they
lead to. State 451 is the start, and it and all above it are final. A
`char` is signed there; 128 to 255 are its negative values.

The authority behind `//` is there twice. The states 9 to 228 and 459 to
507 are the ones without a scheme. Behind a scheme they come again,
further on, and there the edges that lead to the path set `mark`, and
those that end it save it: `absolute` is the number of a state in that
copy, and `pathActs` are the actions.
-/

namespace Sylar

open Scanner

/-- The actions, by their names in the grammar. -/
inductive UriAction where
  | marku | markh | saveScheme | savePort | saveUserinfo | saveHost | savePath | saveQuery
  | saveFragment
deriving Repr, DecidableEq

namespace UriMachine

def one (n : Nat) : List (Nat × Nat) := [(n, n)]

/-- An edge without actions. -/
def go (on : List (Nat × Nat)) (target : Nat) : Edge UriAction := ⟨on, [], target⟩

def digit : List (Nat × Nat) := [(48, 57)]

def threeUp : List (Nat × Nat) := [(51, 57)]

def upToFour : List (Nat × Nat) := [(48, 52)]

def upToFive : List (Nat × Nat) := [(48, 53)]

def notFive : List (Nat × Nat) := [(48, 52), (54, 57)]

def xdigit : List (Nat × Nat) := [(48, 57), (65, 70), (97, 102)]

def xdigitSixUp : List (Nat × Nat) := [(54, 57), (65, 70), (97, 102)]

def xalpha : List (Nat × Nat) := [(65, 70), (97, 102)]

def alpha : List (Nat × Nat) := [(65, 90), (97, 122)]

def schemeChar : List (Nat × Nat) := [(43, 43), (45, 46), (48, 57), (65, 90), (97, 122)]

def regName : List (Nat × Nat) :=
  [(33, 33), (36, 36), (38, 46), (48, 57), (59, 59), (61, 61), (65, 90), (95, 95), (97, 122),
    (126, 126)]

def regNameNoDigit : List (Nat × Nat) :=
  [(33, 33), (36, 36), (38, 46), (59, 59), (61, 61), (65, 90), (95, 95), (97, 122), (126, 126)]

def regNameNoDot : List (Nat × Nat) :=
  [(33, 33), (36, 36), (38, 45), (48, 57), (59, 59), (61, 61), (65, 90), (95, 95), (97, 122),
    (126, 126)]

def regNameNoDotDigit : List (Nat × Nat) :=
  [(33, 33), (36, 36), (38, 45), (59, 59), (61, 61), (65, 90), (95, 95), (97, 122), (126, 126)]

def regNameSixUp : List (Nat × Nat) :=
  [(33, 33), (36, 36), (38, 45), (54, 57), (59, 59), (61, 61), (65, 90), (95, 95), (97, 122),
    (126, 126)]

def userinfoChar : List (Nat × Nat) :=
  [(33, 33), (36, 36), (38, 46), (48, 59), (61, 61), (65, 90), (95, 95), (97, 122), (126, 126)]

def userinfoNoDigit : List (Nat × Nat) :=
  [(33, 33), (36, 36), (38, 46), (58, 59), (61, 61), (65, 90), (95, 95), (97, 122), (126, 126)]

def firstChar : List (Nat × Nat) :=
  [(33, 33), (36, 36), (38, 46), (48, 57), (59, 59), (61, 61), (64, 64), (95, 95), (126, 126),
    (128, 255)]

def afterScheme : List (Nat × Nat) :=
  [(33, 33), (36, 36), (38, 42), (44, 44), (59, 59), (61, 61), (64, 64), (95, 95), (126, 126),
    (128, 255)]

def segmentNc : List (Nat × Nat) :=
  [(33, 33), (36, 36), (38, 46), (48, 57), (59, 59), (61, 61), (64, 90), (95, 95), (97, 122),
    (126, 126), (128, 255)]

def pchar : List (Nat × Nat) :=
  [(33, 33), (36, 36), (38, 46), (48, 59), (61, 61), (64, 90), (95, 95), (97, 122), (126, 126),
    (128, 255)]

def pathChar : List (Nat × Nat) :=
  [(33, 33), (36, 36), (38, 59), (61, 61), (64, 90), (95, 95), (97, 122), (126, 126),
    (128, 255)]

def queryChar : List (Nat × Nat) :=
  [(33, 33), (36, 36), (38, 59), (61, 61), (63, 90), (95, 95), (97, 122), (126, 126),
    (128, 255)]

/-- The scheme, a path, the query and the fragment. -/
def outerStates : List (Nat × List (Edge UriAction)) :=
  [(1, [go xdigit 2]),
    (2, [go xdigit 454]),
    (3, [go xdigit 4]),
    (4, [go xdigit 452]),
    (5, [go xdigit 6]),
    (6, [go xdigit 455]),
    (7, [go xdigit 8]),
    (8, [go xdigit 457]),
    (451, [go firstChar 452, go (one 35) 453, go (one 37) 3, go (one 47) 458, go (one 63) 456,
      ⟨alpha, [.marku], 508⟩]),
    (452, [go segmentNc 452, go (one 35) 453, go (one 37) 3, go (one 47) 455, go (one 63) 456]),
    (453, [⟨queryChar, [.marku], 454⟩, ⟨one 37, [.marku], 1⟩]),
    (454, [go queryChar 454, go (one 37) 1]),
    (455, [go pathChar 455, go (one 35) 453, go (one 37) 5, go (one 63) 456]),
    (456, [⟨queryChar, [.marku], 457⟩, ⟨one 35, [.marku, .saveQuery], 453⟩,
      ⟨one 37, [.marku], 7⟩]),
    (457, [go queryChar 457, ⟨one 35, [.saveQuery], 453⟩, go (one 37) 7]),
    (458, [go pchar 455, go (one 35) 453, go (one 37) 5, go (one 47) 459, go (one 63) 456]),
    (508, [go afterScheme 452, go (one 35) 453, go (one 37) 3, go schemeChar 508, go (one 47) 455,
      ⟨one 58, [.saveScheme], 509⟩, go (one 63) 456]),
    (509, [go pchar 455, go (one 35) 453, go (one 37) 5, go (one 47) 510, go (one 63) 456]),
    (510, [go pchar 455, go (one 35) 453, go (one 37) 5, go (one 47) 511, go (one 63) 456]),
    (513, [go pathChar 513, ⟨one 35, [.savePath], 453⟩, go (one 37) 243,
      ⟨one 63, [.savePath], 456⟩]),
    (243, [go xdigit 244]),
    (244, [go xdigit 513])]

/-- The edges that end an authority. -/
def ends (acts : List UriAction) : List (Edge UriAction) :=
  [⟨one 35, acts, 453⟩, ⟨one 47, acts, 455⟩, ⟨one 63, acts, 456⟩]

/-- A state in a name that may turn out to be the userinfo. -/
def first (es : List (Edge UriAction)) : List (Edge UriAction) :=
  ends [.saveHost] ++ [go (one 37) 31, ⟨one 58, [.saveHost], 468⟩,
    ⟨one 64, [.saveUserinfo], 469⟩] ++ es

/-- A state in a name behind the userinfo. -/
def second (es : List (Edge UriAction)) : List (Edge UriAction) :=
  ends [.saveHost] ++ [go (one 37) 36, ⟨one 58, [.saveHost], 461⟩] ++ es

/-- A state in a host that is not a name. -/
def third (es : List (Edge UriAction)) : List (Edge UriAction) :=
  ends [.saveHost] ++ ⟨one 58, [.saveHost], 461⟩ :: es

/-- An authority. `2 [0-4] digit` in the grammar is the byte 2 and two
digits. -/
def authorityStates : List (Nat × List (Edge UriAction)) :=
  [(9, [go upToFour 10]),
    (10, [go digit 11]),
    (11, [go (one 46) 12]),
    (12, [go (one 2) 13, go (one 48) 15, go (one 49) 27, go (one 50) 29, go threeUp 28]),
    (13, [go upToFour 14]),
    (14, [go digit 15]),
    (15, [go (one 46) 16]),
    (16, [go (one 2) 17, go (one 48) 19, go (one 49) 23, go (one 50) 25, go threeUp 24]),
    (17, [go upToFour 18]),
    (18, [go digit 19]),
    (19, [go (one 46) 20]),
    (20, [go (one 2) 21, go (one 48) 460, go (one 49) 463, go (one 50) 465, go threeUp 464]),
    (21, [go upToFour 22]),
    (22, [go digit 460]),
    (23, [go (one 46) 20, go digit 24]),
    (24, [go (one 46) 20, go digit 19]),
    (25, [go (one 46) 20, go notFive 19, go (one 53) 26]),
    (26, [go (one 46) 20, go upToFive 19]),
    (27, [go (one 46) 16, go digit 28]),
    (28, [go (one 46) 16, go digit 15]),
    (29, [go (one 46) 16, go notFive 15, go (one 53) 30]),
    (30, [go (one 46) 16, go upToFive 15]),
    (31, [go xdigit 32]),
    (32, [go xdigit 467]),
    (33, [go userinfoChar 33, go (one 37) 34, ⟨one 64, [.saveUserinfo], 469⟩]),
    (34, [go xdigit 35]),
    (35, [go xdigit 33]),
    (36, [go xdigit 37]),
    (37, [go xdigit 470]),
    (459, ends [.markh, .saveHost] ++ [⟨one 2, [.markh], 9⟩, ⟨regNameNoDigit, [.markh], 467⟩,
      ⟨one 37, [.markh], 31⟩, ⟨one 48, [.markh], 490⟩, ⟨one 49, [.markh], 504⟩,
      ⟨one 50, [.markh], 506⟩, ⟨threeUp, [.markh], 505⟩, ⟨one 58, [.markh, .saveHost], 468⟩,
      ⟨one 64, [.markh, .saveUserinfo], 469⟩, ⟨one 91, [.markh], 38⟩]),
    (460, third []),
    (461, ends [.markh, .savePort] ++ [⟨digit, [.markh], 462⟩]),
    (462, ends [.savePort] ++ [go digit 462]),
    (463, third [go digit 464]),
    (464, third [go digit 460]),
    (465, third [go notFive 460, go (one 53) 466]),
    (466, third [go upToFive 460]),
    (467, first [go regName 467]),
    (468, ends [.markh, .savePort] ++ [go userinfoNoDigit 33, go (one 37) 34,
      ⟨digit, [.markh], 489⟩, ⟨one 64, [.saveUserinfo], 469⟩]),
    (469, ends [.markh, .saveHost] ++ [⟨one 2, [.markh], 9⟩, ⟨regNameNoDigit, [.markh], 470⟩,
      ⟨one 37, [.markh], 36⟩, ⟨one 48, [.markh], 471⟩, ⟨one 49, [.markh], 485⟩,
      ⟨one 50, [.markh], 487⟩, ⟨threeUp, [.markh], 486⟩, ⟨one 58, [.markh, .saveHost], 461⟩,
      ⟨one 91, [.markh], 38⟩]),
    (470, second [go regName 470]),
    (471, second [go regNameNoDot 470, go (one 46) 472]),
    (472, second [go (one 2) 13, go regNameNoDigit 470, go (one 48) 473, go (one 49) 481,
      go (one 50) 483, go threeUp 482]),
    (473, second [go regNameNoDot 470, go (one 46) 474]),
    (474, second [go (one 2) 17, go regNameNoDigit 470, go (one 48) 475, go (one 49) 477,
      go (one 50) 479, go threeUp 478]),
    (475, second [go regNameNoDot 470, go (one 46) 476]),
    (476, second [go (one 2) 21, go regName 470]),
    (477, second [go regNameNoDotDigit 470, go (one 46) 476, go digit 478]),
    (478, second [go regNameNoDotDigit 470, go (one 46) 476, go digit 475]),
    (479, second [go regNameNoDotDigit 470, go (one 46) 476, go notFive 475, go (one 53) 480]),
    (480, second [go regNameSixUp 470, go (one 46) 476, go upToFive 475]),
    (481, second [go regNameNoDotDigit 470, go (one 46) 474, go digit 482]),
    (482, second [go regNameNoDotDigit 470, go (one 46) 474, go digit 473]),
    (483, second [go regNameNoDotDigit 470, go (one 46) 474, go notFive 473, go (one 53) 484]),
    (484, second [go regNameSixUp 470, go (one 46) 474, go upToFive 473]),
    (485, second [go regNameNoDotDigit 470, go (one 46) 472, go digit 486]),
    (486, second [go regNameNoDotDigit 470, go (one 46) 472, go digit 471]),
    (487, second [go regNameNoDotDigit 470, go (one 46) 472, go notFive 471, go (one 53) 488]),
    (488, second [go regNameSixUp 470, go (one 46) 472, go upToFive 471]),
    (489, ends [.savePort] ++ [go userinfoNoDigit 33, go (one 37) 34, go digit 489,
      ⟨one 64, [.saveUserinfo], 469⟩]),
    (490, first [go regNameNoDot 467, go (one 46) 491]),
    (491, first [go (one 2) 13, go regNameNoDigit 467, go (one 48) 492, go (one 49) 500,
      go (one 50) 502, go threeUp 501]),
    (492, first [go regNameNoDot 467, go (one 46) 493]),
    (493, first [go (one 2) 17, go regNameNoDigit 467, go (one 48) 494, go (one 49) 496,
      go (one 50) 498, go threeUp 497]),
    (494, first [go regNameNoDot 467, go (one 46) 495]),
    (495, first [go (one 2) 21, go regName 467]),
    (496, first [go regNameNoDotDigit 467, go (one 46) 495, go digit 497]),
    (497, first [go regNameNoDotDigit 467, go (one 46) 495, go digit 494]),
    (498, first [go regNameNoDotDigit 467, go (one 46) 495, go notFive 494, go (one 53) 499]),
    (499, first [go regNameSixUp 467, go (one 46) 495, go upToFive 494]),
    (500, first [go regNameNoDotDigit 467, go (one 46) 493, go digit 501]),
    (501, first [go regNameNoDotDigit 467, go (one 46) 493, go digit 492]),
    (502, first [go regNameNoDotDigit 467, go (one 46) 493, go notFive 492, go (one 53) 503]),
    (503, first [go regNameSixUp 467, go (one 46) 493, go upToFive 492]),
    (504, first [go regNameNoDotDigit 467, go (one 46) 491, go digit 505]),
    (505, first [go regNameNoDotDigit 467, go (one 46) 491, go digit 490]),
    (506, first [go regNameNoDotDigit 467, go (one 46) 491, go notFive 490, go (one 53) 507]),
    (507, first [go regNameSixUp 467, go (one 46) 491, go upToFive 490])]

/-- A host in brackets. -/
def literalStates : List (Nat × List (Edge UriAction)) :=
  [(38, [go xdigit 39, go (one 58) 146, go (one 118) 225]),
    (39, [go xdigit 40, go (one 58) 43]),
    (40, [go xdigit 41, go (one 58) 43]),
    (41, [go xdigit 42, go (one 58) 43]),
    (42, [go (one 58) 43]),
    (43, [go xdigit 44, go (one 58) 141]),
    (44, [go xdigit 45, go (one 58) 48]),
    (45, [go xdigit 46, go (one 58) 48]),
    (46, [go xdigit 47, go (one 58) 48]),
    (47, [go (one 58) 48]),
    (48, [go xdigit 49, go (one 58) 136]),
    (49, [go xdigit 50, go (one 58) 53]),
    (50, [go xdigit 51, go (one 58) 53]),
    (51, [go xdigit 52, go (one 58) 53]),
    (52, [go (one 58) 53]),
    (53, [go xdigit 54, go (one 58) 131]),
    (54, [go xdigit 55, go (one 58) 58]),
    (55, [go xdigit 56, go (one 58) 58]),
    (56, [go xdigit 57, go (one 58) 58]),
    (57, [go (one 58) 58]),
    (58, [go xdigit 59, go (one 58) 126]),
    (59, [go xdigit 60, go (one 58) 63]),
    (60, [go xdigit 61, go (one 58) 63]),
    (61, [go xdigit 62, go (one 58) 63]),
    (62, [go (one 58) 63]),
    (63, [go xdigit 64, go (one 58) 113]),
    (64, [go xdigit 65, go (one 58) 68]),
    (65, [go xdigit 66, go (one 58) 68]),
    (66, [go xdigit 67, go (one 58) 68]),
    (67, [go (one 58) 68]),
    (68, [go (one 2) 69, go (one 48) 96, go (one 49) 104, go (one 50) 107, go threeUp 110,
      go (one 58) 111, go xalpha 112]),
    (69, [go upToFour 70]),
    (70, [go digit 71]),
    (71, [go (one 46) 72]),
    (72, [go (one 2) 73, go (one 48) 75, go (one 49) 92, go (one 50) 94, go threeUp 93]),
    (73, [go upToFour 74]),
    (74, [go digit 75]),
    (75, [go (one 46) 76]),
    (76, [go (one 2) 77, go (one 48) 79, go (one 49) 88, go (one 50) 90, go threeUp 89]),
    (77, [go upToFour 78]),
    (78, [go digit 79]),
    (79, [go (one 46) 80]),
    (80, [go (one 2) 81, go (one 48) 83, go (one 49) 84, go (one 50) 86, go threeUp 85]),
    (81, [go upToFour 82]),
    (82, [go digit 83]),
    (83, [go (one 93) 460]),
    (84, [go digit 85, go (one 93) 460]),
    (85, [go digit 83, go (one 93) 460]),
    (86, [go notFive 83, go (one 53) 87, go (one 93) 460]),
    (87, [go upToFive 83, go (one 93) 460]),
    (88, [go (one 46) 80, go digit 89]),
    (89, [go (one 46) 80, go digit 79]),
    (90, [go (one 46) 80, go notFive 79, go (one 53) 91]),
    (91, [go (one 46) 80, go upToFive 79]),
    (92, [go (one 46) 76, go digit 93]),
    (93, [go (one 46) 76, go digit 75]),
    (94, [go (one 46) 76, go notFive 75, go (one 53) 95]),
    (95, [go (one 46) 76, go upToFive 75]),
    (96, [go (one 46) 72, go xdigit 97, go (one 58) 100]),
    (97, [go xdigit 98, go (one 58) 100]),
    (98, [go xdigit 99, go (one 58) 100]),
    (99, [go (one 58) 100]),
    (100, [go xdigit 101, go (one 58) 83]),
    (101, [go xdigit 102, go (one 93) 460]),
    (102, [go xdigit 103, go (one 93) 460]),
    (103, [go xdigit 83, go (one 93) 460]),
    (104, [go (one 46) 72, go digit 105, go (one 58) 100, go xalpha 97]),
    (105, [go (one 46) 72, go digit 106, go (one 58) 100, go xalpha 98]),
    (106, [go (one 46) 72, go xdigit 99, go (one 58) 100]),
    (107, [go (one 46) 72, go notFive 108, go (one 53) 109, go (one 58) 100, go xalpha 97]),
    (108, [go (one 46) 72, go xdigit 98, go (one 58) 100]),
    (109, [go (one 46) 72, go upToFive 106, go xdigitSixUp 98, go (one 58) 100]),
    (110, [go (one 46) 72, go digit 108, go (one 58) 100, go xalpha 97]),
    (111, [go xdigit 101]),
    (112, [go xdigit 97, go (one 58) 100]),
    (113, [go (one 2) 69, go (one 48) 114, go (one 49) 118, go (one 50) 121, go threeUp 124,
      go xalpha 125]),
    (114, [go (one 46) 72, go xdigit 115, go (one 58) 111]),
    (115, [go xdigit 116, go (one 58) 111]),
    (116, [go xdigit 117, go (one 58) 111]),
    (117, [go (one 58) 111]),
    (118, [go (one 46) 72, go digit 119, go (one 58) 111, go xalpha 115]),
    (119, [go (one 46) 72, go digit 120, go (one 58) 111, go xalpha 116]),
    (120, [go (one 46) 72, go xdigit 117, go (one 58) 111]),
    (121, [go (one 46) 72, go notFive 122, go (one 53) 123, go (one 58) 111, go xalpha 115]),
    (122, [go (one 46) 72, go xdigit 116, go (one 58) 111]),
    (123, [go (one 46) 72, go upToFive 120, go xdigitSixUp 116, go (one 58) 111]),
    (124, [go (one 46) 72, go digit 122, go (one 58) 111, go xalpha 115]),
    (125, [go xdigit 115, go (one 58) 111]),
    (126, [go xdigit 127]),
    (127, [go xdigit 128, go (one 58) 113]),
    (128, [go xdigit 129, go (one 58) 113]),
    (129, [go xdigit 130, go (one 58) 113]),
    (130, [go (one 58) 113]),
    (131, [go xdigit 132]),
    (132, [go xdigit 133, go (one 58) 126]),
    (133, [go xdigit 134, go (one 58) 126]),
    (134, [go xdigit 135, go (one 58) 126]),
    (135, [go (one 58) 126]),
    (136, [go xdigit 137]),
    (137, [go xdigit 138, go (one 58) 131]),
    (138, [go xdigit 139, go (one 58) 131]),
    (139, [go xdigit 140, go (one 58) 131]),
    (140, [go (one 58) 131]),
    (141, [go xdigit 142]),
    (142, [go xdigit 143, go (one 58) 136]),
    (143, [go xdigit 144, go (one 58) 136]),
    (144, [go xdigit 145, go (one 58) 136]),
    (145, [go (one 58) 136]),
    (146, [go (one 58) 147]),
    (147, [go (one 2) 69, go (one 48) 148, go (one 49) 217, go (one 50) 220, go threeUp 223,
      go xalpha 224, go (one 93) 460]),
    (148, [go (one 46) 72, go xdigit 149, go (one 58) 152, go (one 93) 460]),
    (149, [go xdigit 150, go (one 58) 152, go (one 93) 460]),
    (150, [go xdigit 151, go (one 58) 152, go (one 93) 460]),
    (151, [go (one 58) 152, go (one 93) 460]),
    (152, [go (one 2) 69, go (one 48) 153, go (one 49) 209, go (one 50) 212, go threeUp 215,
      go xalpha 216]),
    (153, [go (one 46) 72, go xdigit 154, go (one 58) 157, go (one 93) 460]),
    (154, [go xdigit 155, go (one 58) 157, go (one 93) 460]),
    (155, [go xdigit 156, go (one 58) 157, go (one 93) 460]),
    (156, [go (one 58) 157, go (one 93) 460]),
    (157, [go (one 2) 69, go (one 48) 158, go (one 49) 201, go (one 50) 204, go threeUp 207,
      go xalpha 208]),
    (158, [go (one 46) 72, go xdigit 159, go (one 58) 162, go (one 93) 460]),
    (159, [go xdigit 160, go (one 58) 162, go (one 93) 460]),
    (160, [go xdigit 161, go (one 58) 162, go (one 93) 460]),
    (161, [go (one 58) 162, go (one 93) 460]),
    (162, [go (one 2) 69, go (one 48) 163, go (one 49) 193, go (one 50) 196, go threeUp 199,
      go xalpha 200]),
    (163, [go (one 46) 72, go xdigit 164, go (one 58) 167, go (one 93) 460]),
    (164, [go xdigit 165, go (one 58) 167, go (one 93) 460]),
    (165, [go xdigit 166, go (one 58) 167, go (one 93) 460]),
    (166, [go (one 58) 167, go (one 93) 460]),
    (167, [go (one 2) 69, go (one 48) 168, go (one 49) 185, go (one 50) 188, go threeUp 191,
      go xalpha 192]),
    (168, [go (one 46) 72, go xdigit 169, go (one 58) 172, go (one 93) 460]),
    (169, [go xdigit 170, go (one 58) 172, go (one 93) 460]),
    (170, [go xdigit 171, go (one 58) 172, go (one 93) 460]),
    (171, [go (one 58) 172, go (one 93) 460]),
    (172, [go (one 2) 69, go (one 48) 173, go (one 49) 177, go (one 50) 180, go threeUp 183,
      go xalpha 184]),
    (173, [go (one 46) 72, go xdigit 174, go (one 58) 111, go (one 93) 460]),
    (174, [go xdigit 175, go (one 58) 111, go (one 93) 460]),
    (175, [go xdigit 176, go (one 58) 111, go (one 93) 460]),
    (176, [go (one 58) 111, go (one 93) 460]),
    (177, [go (one 46) 72, go digit 178, go (one 58) 111, go xalpha 174, go (one 93) 460]),
    (178, [go (one 46) 72, go digit 179, go (one 58) 111, go xalpha 175, go (one 93) 460]),
    (179, [go (one 46) 72, go xdigit 176, go (one 58) 111, go (one 93) 460]),
    (180, [go (one 46) 72, go notFive 181, go (one 53) 182, go (one 58) 111, go xalpha 174,
      go (one 93) 460]),
    (181, [go (one 46) 72, go xdigit 175, go (one 58) 111, go (one 93) 460]),
    (182, [go (one 46) 72, go upToFive 179, go xdigitSixUp 175, go (one 58) 111,
      go (one 93) 460]),
    (183, [go (one 46) 72, go digit 181, go (one 58) 111, go xalpha 174, go (one 93) 460]),
    (184, [go xdigit 174, go (one 58) 111, go (one 93) 460]),
    (185, [go (one 46) 72, go digit 186, go (one 58) 172, go xalpha 169, go (one 93) 460]),
    (186, [go (one 46) 72, go digit 187, go (one 58) 172, go xalpha 170, go (one 93) 460]),
    (187, [go (one 46) 72, go xdigit 171, go (one 58) 172, go (one 93) 460]),
    (188, [go (one 46) 72, go notFive 189, go (one 53) 190, go (one 58) 172, go xalpha 169,
      go (one 93) 460]),
    (189, [go (one 46) 72, go xdigit 170, go (one 58) 172, go (one 93) 460]),
    (190, [go (one 46) 72, go upToFive 187, go xdigitSixUp 170, go (one 58) 172,
      go (one 93) 460]),
    (191, [go (one 46) 72, go digit 189, go (one 58) 172, go xalpha 169, go (one 93) 460]),
    (192, [go xdigit 169, go (one 58) 172, go (one 93) 460]),
    (193, [go (one 46) 72, go digit 194, go (one 58) 167, go xalpha 164, go (one 93) 460]),
    (194, [go (one 46) 72, go digit 195, go (one 58) 167, go xalpha 165, go (one 93) 460]),
    (195, [go (one 46) 72, go xdigit 166, go (one 58) 167, go (one 93) 460]),
    (196, [go (one 46) 72, go notFive 197, go (one 53) 198, go (one 58) 167, go xalpha 164,
      go (one 93) 460]),
    (197, [go (one 46) 72, go xdigit 165, go (one 58) 167, go (one 93) 460]),
    (198, [go (one 46) 72, go upToFive 195, go xdigitSixUp 165, go (one 58) 167,
      go (one 93) 460]),
    (199, [go (one 46) 72, go digit 197, go (one 58) 167, go xalpha 164, go (one 93) 460]),
    (200, [go xdigit 164, go (one 58) 167, go (one 93) 460]),
    (201, [go (one 46) 72, go digit 202, go (one 58) 162, go xalpha 159, go (one 93) 460]),
    (202, [go (one 46) 72, go digit 203, go (one 58) 162, go xalpha 160, go (one 93) 460]),
    (203, [go (one 46) 72, go xdigit 161, go (one 58) 162, go (one 93) 460]),
    (204, [go (one 46) 72, go notFive 205, go (one 53) 206, go (one 58) 162, go xalpha 159,
      go (one 93) 460]),
    (205, [go (one 46) 72, go xdigit 160, go (one 58) 162, go (one 93) 460]),
    (206, [go (one 46) 72, go upToFive 203, go xdigitSixUp 160, go (one 58) 162,
      go (one 93) 460]),
    (207, [go (one 46) 72, go digit 205, go (one 58) 162, go xalpha 159, go (one 93) 460]),
    (208, [go xdigit 159, go (one 58) 162, go (one 93) 460]),
    (209, [go (one 46) 72, go digit 210, go (one 58) 157, go xalpha 154, go (one 93) 460]),
    (210, [go (one 46) 72, go digit 211, go (one 58) 157, go xalpha 155, go (one 93) 460]),
    (211, [go (one 46) 72, go xdigit 156, go (one 58) 157, go (one 93) 460]),
    (212, [go (one 46) 72, go notFive 213, go (one 53) 214, go (one 58) 157, go xalpha 154,
      go (one 93) 460]),
    (213, [go (one 46) 72, go xdigit 155, go (one 58) 157, go (one 93) 460]),
    (214, [go (one 46) 72, go upToFive 211, go xdigitSixUp 155, go (one 58) 157,
      go (one 93) 460]),
    (215, [go (one 46) 72, go digit 213, go (one 58) 157, go xalpha 154, go (one 93) 460]),
    (216, [go xdigit 154, go (one 58) 157, go (one 93) 460]),
    (217, [go (one 46) 72, go digit 218, go (one 58) 152, go xalpha 149, go (one 93) 460]),
    (218, [go (one 46) 72, go digit 219, go (one 58) 152, go xalpha 150, go (one 93) 460]),
    (219, [go (one 46) 72, go xdigit 151, go (one 58) 152, go (one 93) 460]),
    (220, [go (one 46) 72, go notFive 221, go (one 53) 222, go (one 58) 152, go xalpha 149,
      go (one 93) 460]),
    (221, [go (one 46) 72, go xdigit 150, go (one 58) 152, go (one 93) 460]),
    (222, [go (one 46) 72, go upToFive 219, go xdigitSixUp 150, go (one 58) 152,
      go (one 93) 460]),
    (223, [go (one 46) 72, go digit 221, go (one 58) 152, go xalpha 149, go (one 93) 460]),
    (224, [go xdigit 149, go (one 58) 152, go (one 93) 460]),
    (225, [go xdigit 226]),
    (226, [go (one 46) 227, go xdigit 226]),
    (227, [go userinfoChar 228]),
    (228, [go userinfoChar 228, go (one 93) 460])]

/-- A state of the authority, or behind it, when there is a scheme. -/
def absolute (cs : Nat) : Nat :=
  if cs = 455 then 513
  else if cs = 453 ∨ cs = 456 then cs
  else if cs < 23 then cs + 220
  else if cs < 229 then cs + 222
  else if cs < 461 then cs + 52
  else cs + 53

/-- What is done with the path where an edge leaves the authority for
`target`. -/
def pathActs (acts : List UriAction) (target : Nat) : List UriAction :=
  let marked := if .markh ∈ acts then acts else acts ++ [.markh]
  if target = 455 then marked
  else if target = 453 ∨ target = 456 then marked ++ [.savePath]
  else acts

def behindScheme (row : Nat × List (Edge UriAction)) : Nat × List (Edge UriAction) :=
  (absolute row.1, row.2.map fun e => ⟨e.on, pathActs e.acts e.target, absolute e.target⟩)

def states : List (Nat × List (Edge UriAction)) :=
  outerStates ++ authorityStates ++ literalStates ++
    (authorityStates ++ literalStates).map behindScheme

def machine : Table UriAction := tableOf states

def start : Nat := 451

def firstFinal : Nat := 451

/-- The actions at the end of the input. -/
def eofActs (cs : Nat) : List UriAction :=
  if cs = 462 ∨ cs = 489 then [.savePort]
  else if cs = 460 ∨ 463 ≤ cs ∧ cs ≤ 467 ∨ 470 ≤ cs ∧ cs ≤ 488 ∨ 490 ≤ cs ∧ cs ≤ 507 then
    [.saveHost]
  else if cs = 513 then [.savePath]
  else if cs = 457 then [.saveQuery]
  else if cs = 454 then [.saveFragment]
  else if cs = 456 then [.marku, .saveQuery]
  else if cs = 453 then [.marku, .saveFragment]
  else if cs = 461 ∨ cs = 468 then [.markh, .savePort]
  else if cs = 459 ∨ cs = 469 then [.markh, .saveHost]
  else if cs = 514 ∨ cs = 521 then [.markh, .savePort, .savePath]
  else if cs = 511 ∨ cs = 522 then [.markh, .saveHost, .savePath]
  else if cs = 515 ∨ cs = 542 then [.savePort, .markh, .savePath]
  else if cs = 512 ∨ 516 ≤ cs ∧ cs ≤ 520 ∨ 523 ≤ cs ∧ cs ≤ 541 ∨ 543 ≤ cs ∧ cs ≤ 560 then
    [.saveHost, .markh, .savePath]
  else []

end UriMachine

end Sylar
