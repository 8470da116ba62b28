import PracticeCode.Lib.Replace

/-!
# `regex2/main.cpp`: spaces around punctuation

`test3` puts spaces around apostrophes, `test4` around commas, by one `std::regex_replace` after
another.  The string is a constant in each of them; here it is the argument.

A wide character is a 32-bit code, a wide string a list of them.
-/

namespace PracticeCode.Regex2

open Lib

abbrev WChar := UInt32

abbrev WString := List WChar

/-- `L"..."` -/
def wide (s : String) : WString := s.toList.map Char.val

abbrev space : WChar := ' '.val

abbrev comma : WChar := ','.val

abbrev apostrophe : WChar := '\''.val

def IsAlpha : WString := wide "ABCDEFGHIJKLMNOPQRSTUVWXYZabcdefghijklmnopqrstuvwxyz"

def IsN : WString :=
  wide "0123456789²³¹¼½¾٠١٢٣٤٥٦٧٨٩۰۱۲۳۴۵۶۷۸۹߀߁߂߃߄߅߆߇߈߉०१२३४५६७८९০১২৩৪৫৬৭৮৯৴৵৶৷৸৹" ++
  wide "੦੧੨੩੪੫੬੭੮੯૦૧૨૩૪૫૬૭૮૯୦୧୨୩୪୫୬୭୮୯୲୳୴୵୶୷௦௧௨௩௪௫௬௭௮௯௰௱௲౦౧౨౩౪౫౬౭౮౯౸౹౺౻౼౽౾೦೧೨೩೪೫೬೭೮೯" ++
  wide "൦൧൨൩൪൫൬൭൮൯൰൱൲൳൴൵๐๑๒๓๔๕๖๗๘๙໐໑໒໓໔໕໖໗໘໙༠༡༢༣༤༥༦༧༨༩༪༫༬༭༮༯༰༱༲༳၀၁၂၃၄၅၆၇၈၉႐႑႒႓႔႕႖႗႘႙" ++
  wide "፩፪፫፬፭፮፯፰፱፲፳፴፵፶፷፸፹፺፻፼ᛮᛯᛰ០១២៣៤៥៦៧៨៩៰៱៲៳៴៵៶៷៸៹᠐᠑᠒᠓᠔᠕᠖᠗᠘᠙᥆᥇᥈᥉᥊᥋᥌᥍᥎᥏᧐᧑᧒᧓᧔᧕᧖᧗᧘᧙᧚" ++
  wide "᪀᪁᪂᪃᪄᪅᪆᪇᪈᪉᪐᪑᪒᪓᪔᪕᪖᪗᪘᪙᭐᭑᭒᭓᭔᭕᭖᭗᭘᭙᮰᮱᮲᮳᮴᮵᮶᮷᮸᮹᱀᱁᱂᱃᱄᱅᱆᱇᱈᱉᱐᱑᱒᱓᱔᱕᱖᱗᱘᱙⁰⁴⁵⁶⁷⁸⁹₀₁₂₃₄₅₆₇₈₉" ++
  wide "⅐⅑⅒⅓⅔⅕⅖⅗⅘⅙⅚⅛⅜⅝⅞⅟ⅠⅡⅢⅣⅤⅥⅦⅧⅨⅩⅪⅫⅬⅭⅮⅯⅰⅱⅲⅳⅴⅵⅶⅷⅸⅹⅺⅻⅼⅽⅾⅿↀↁↂↅↆↇↈ↉" ++
  wide "①②③④⑤⑥⑦⑧⑨⑩⑪⑫⑬⑭⑮⑯⑰⑱⑲⑳⑴⑵⑶⑷⑸⑹⑺⑻⑼⑽⑾⑿⒀⒁⒂⒃⒄⒅⒆⒇⒈⒉⒊⒋⒌⒍⒎⒏⒐⒑⒒⒓⒔⒕⒖⒗⒘⒙⒚⒛" ++
  wide "⓪⓫⓬⓭⓮⓯⓰⓱⓲⓳⓴⓵⓶⓷⓸⓹⓺⓻⓼⓽⓾⓿❶❷❸❹❺❻❼❽❾❿➀➁➂➃➄➅➆➇➈➉➊➋➌➍➎➏➐➑➒➓⳽㆒㆓㆔㆕㈠㈡㈢㈣㈤㈥㈦㈧㈨㈩" ++
  wide "㉈㉉㉊㉋㉌㉍㉎㉏㉑㉒㉓㉔㉕㉖㉗㉘㉙㉚㉛㉜㉝㉞㉟㊀㊁㊂㊃㊄㊅㊆㊇㊈㊉㊱㊲㊳㊴㊵㊶㊷㊸㊹㊺㊻㊼㊽㊾㊿꘠꘡꘢꘣꘤꘥꘦꘧꘨꘩ꛦꛧꛨꛩꛪꛫꛬꛭꛮꛯ꠰꠱꠲꠳꠴꠵" ++
  wide "꣐꣑꣒꣓꣔꣕꣖꣗꣘꣙꤀꤁꤂꤃꤄꤅꤆꤇꤈꤉꧐꧑꧒꧓꧔꧕꧖꧗꧘꧙꩐꩑꩒꩓꩔꩕꩖꩗꩘꩙꯰꯱꯲꯳꯴꯵꯶꯷꯸꯹０１２３４５６７８９"

/-! ## `test3` -/

def r_apostrophe1 : Pattern WChar := .between (.noneOf IsAlpha) apostrophe (.noneOf IsAlpha)

def r_apostrophe2 : Pattern WChar := .between (.noneOf IsAlpha) apostrophe (.oneOf IsAlpha)

def r_apostrophe3 : Pattern WChar := .between (.oneOf IsAlpha) apostrophe (.noneOf IsAlpha)

/-- `L"$1 ' $2"` -/
def apostropheFormat : List (Piece WChar) :=
  [.group 1, .lit space, .lit apostrophe, .lit space, .group 2]

def test3 (result : WString) : WString :=
  let result := regex_replace result r_apostrophe1 apostropheFormat
  let result := regex_replace result r_apostrophe2 apostropheFormat
  regex_replace result r_apostrophe3 apostropheFormat

/-! ## `test4` -/

def r_comma1 : Pattern WChar := .behind (.noneOf IsN) comma

def r_comma2 : Pattern WChar := .ahead comma (.noneOf IsN)

/-- The formats are `L"$1 , "` and `L" , $1"`. -/
def test4 (result : WString) : WString :=
  let result := regex_replace result r_comma1 [.group 1, .lit space, .lit comma, .lit space]
  regex_replace result r_comma2 [.lit space, .lit comma, .lit space, .group 1]

/-! ## What the functions are for -/

/-- There is a character, and it is not of the class. -/
def outside (cs : WString) (c : Option WChar) : Bool := c.any fun x => decide (x ∉ cs)

theorem outside_some {cs : WString} {x : WChar} : outside cs (some x) = true ↔ x ∉ cs := by
  rw [outside, Option.any_some, decide_eq_true_eq]

/-- Every `q` of `s` whose neighbours call for it has a space right before and right behind it in
`t`.  The `q`s of both are counted from the left: `t` is `s` with more spaces (`filter_test3`,
`filter_test4`). -/
def Spaced (q : WChar) (need : Option WChar → Option WChar → Prop) (s t : WString) : Prop :=
  List.Forall₂ (fun old new => need old.1 old.2 → new = (some space, some space))
    (neighbours q s) (neighbours q t)

/-- `test4`: a character outside `IsN` is next to the comma. -/
def CommasSpaced (s : WString) : Prop :=
  Spaced comma (fun x y => outside IsN x ∨ outside IsN y) s (test4 s)

/-- `test3`: there is a character on both sides, and one of them is outside `IsAlpha`. -/
def ApostrophesSpaced (s : WString) : Prop :=
  Spaced apostrophe
    (fun x y => x.isSome ∧ y.isSome ∧ (outside IsAlpha x ∨ outside IsAlpha y)) s (test3 s)

/-! ## The classes -/

theorem wide_ofList (l : List Char) : wide (String.ofList l) = l.map Char.val := by
  rw [wide, String.toList_ofList]

set_option maxRecDepth 10000 in
theorem not_mem_IsN : comma ∉ IsN ∧ space ∉ IsN := by
  rw [IsN]
  repeat rw [wide_ofList]
  decide

theorem not_mem_IsAlpha : apostrophe ∉ IsAlpha ∧ space ∉ IsAlpha ∧ '2'.val ∉ IsAlpha := by
  rw [IsAlpha, wide_ofList]
  decide

end PracticeCode.Regex2
