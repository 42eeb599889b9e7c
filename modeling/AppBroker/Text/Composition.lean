/-!
# Letters with marks

Many letters with a mark are characters of their own. A text is composed if none of its letters is
followed by a mark that it has such a character with.
-/

namespace AppBroker.Text

/-- Marks, and the small letters that each of them composes with. -/
def marks : List (Nat × String) :=
  [(0x300, "aeiouünеиēōwâăêôơưyἀἁἐἑἠἡἰἱὀὁὐὑὠὡαεηιουωϊϋ"),
   (0x301, "aeiouyclnrszügåæøϊαεηιϋουωϒгкçēïkmõōpũwâăêôơưἀἁἐἑἠἡἰἱὀὁὐὑὠὡ"),
   (0x302, "aeioucghjswyzạẹọ"), (0x303, "anoiuvâăeêôơưy"), (0x304, "aeiouüäȧæǫöõȯyиуgḷṛαιυ"),
   (0x306, "aegiouиужаеȩạαιυ"), (0x307, "cegzaobdfhmnprsśšṣtwxyſ"),
   (0x308, "aeiouyιυϒеіаәжзиоөэучыhõūwxt"), (0x309, "aâăeêioôơuưy"), (0x30a, "auwy"),
   (0x30b, "ouу"), (0x30c, "cdelnrstzaiouügkʒjh"), (0x30f, "aeioruѵ"), (0x311, "aeioru"),
   (0x313, "αεηιουωρ"), (0x314, "αεηιουωρ"), (0x31b, "ou"), (0x323, "bdhklmnrstvwzaeioơuưy"),
   (0x324, "u"), (0x325, "a"), (0x326, "st"), (0x327, "cgklnrstedh"), (0x328, "aeiuo"),
   (0x32d, "delntu"), (0x32e, "h"), (0x330, "eiu"), (0x331, "bdklnrtzh"),
   (0x342, "ἀἁἠἡἰἱὐὑὠὡαηιϊυϋω"), (0x345, "ἀἁἂἃἄἅἆἇἠἡἢἣἤἥἦἧὠὡὢὣὤὥὦὧὰαάᾶὴηήῆὼωώῶ"), (0x653, "ا"),
   (0x654, "اويەہے"), (0x655, "ا"), (0x93c, "नरळ"), (0xbd7, "ஒ"), (0x102e, "ဥ"),
   (0x1b35, "ᬅᬇᬉᬋᬍᬑ"), (0x3099, "かきくけこさしすせそたちつてとはひふへほうゝカキクケコサシスセソタチツテトハヒフヘホウワヰヱヲヽ"),
   (0x309a, "はひふへほハヒフヘホ"), (0x110ba, "𑂙𑂛𑂥")]

/-- Whether a mark composes with the letter before it. -/
def composes (letter mark : Char) : Bool :=
  match marks.lookup mark.toNat with
  | some letters => letters.toList.any (· = letter)
  | none => false

/-- Whether a text is composed. -/
def isComposed : List Char → Bool
  | a :: b :: cs => !composes a b && isComposed (b :: cs)
  | _ => true

end AppBroker.Text
