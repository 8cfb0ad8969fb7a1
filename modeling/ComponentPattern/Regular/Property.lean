/-
# Properties of code points

The names that may stand in `\p` and its negation. Names are compared loosely: case, blanks,
underscores and hyphens do not matter, nor does a leading `is`. Only whether a name is known is
decided here, not which code points have the property.
-/
import ComponentPattern.Text.Basic

namespace ComponentPattern.Regular.Property

/-! ## Known names -/

/-- General categories, and the sets that are named like them. -/
def categories : List String :=
  ["c", "other", "cc", "control", "cntrl", "cf", "format", "cn", "unassigned", "co", "privateuse",
   "l", "letter", "lc", "casedletter", "ll", "lowercaseletter", "lm", "modifierletter", "lo",
   "otherletter", "lt", "titlecaseletter", "lu", "uppercaseletter", "m", "mark", "combiningmark",
   "mc", "spacingmark", "me", "enclosingmark", "mn", "nonspacingmark", "n", "number", "nd",
   "decimalnumber", "digit", "nl", "letternumber", "no", "othernumber", "p", "punctuation",
   "punct", "pc", "connectorpunctuation", "pd", "dashpunctuation", "pe", "closepunctuation", "pf",
   "finalpunctuation", "pi", "initialpunctuation", "po", "otherpunctuation", "ps",
   "openpunctuation", "s", "symbol", "sc", "currencysymbol", "sk", "modifiersymbol", "sm",
   "mathsymbol", "so", "othersymbol", "z", "separator", "zl", "lineseparator", "zp",
   "paragraphseparator", "zs", "spaceseparator", "any", "assigned", "ascii"]

/-- Properties that a code point has or has not. -/
def binaries : List String :=
  ["ahex", "asciihexdigit", "alpha", "alphabetic", "bidic", "bidicontrol", "bidim",
   "bidimirrored", "cased", "ci", "caseignorable", "cwcf", "changeswhencasefolded", "cwcm",
   "changeswhencasemapped", "cwl", "changeswhenlowercased", "cwt", "changeswhentitlecased", "cwu",
   "changeswhenuppercased", "dash", "di", "defaultignorablecodepoint", "dep", "deprecated", "dia",
   "diacritic", "ebase", "emojimodifierbase", "ecomp", "emojicomponent", "emod", "emojimodifier",
   "emoji", "epres", "emojipresentation", "ext", "extender", "extpict", "extendedpictographic",
   "grbase", "graphemebase", "grext", "graphemeextend", "grlink", "graphemelink", "hex",
   "hexdigit", "hyphen", "idc", "idcontinue", "ids", "idstart", "idsb", "idsbinaryoperator",
   "idst", "idstrinaryoperator", "idsu", "idsunaryoperator", "idcompatmathcontinue",
   "idcompatmathstart", "ideo", "ideographic", "joinc", "joincontrol", "loe",
   "logicalorderexception", "lower", "lowercase", "math", "mcm", "modifiercombiningmark", "nchar",
   "noncharactercodepoint", "oalpha", "otheralphabetic", "odi", "otherdefaultignorablecodepoint",
   "ogrext", "othergraphemeextend", "oidc", "otheridcontinue", "oids", "otheridstart", "olower",
   "otherlowercase", "omath", "othermath", "oupper", "otheruppercase", "patsyn", "patternsyntax",
   "patws", "patternwhitespace", "pcm", "prependedconcatenationmark", "qmark", "quotationmark",
   "radical", "ri", "regionalindicator", "sd", "softdotted", "sterm", "sentenceterminal", "term",
   "terminalpunctuation", "uideo", "unifiedideograph", "upper", "uppercase", "vs",
   "variationselector", "wspace", "whitespace", "space", "xidc", "xidcontinue", "xids",
   "xidstart"]

/-- Scripts, by name and by code. -/
def scripts : List String :=
  ["adlam", "adlm", "aghb", "ahom", "anatolianhieroglyphs", "arab", "arabic", "armenian", "armi",
   "armn", "avestan", "avst", "bali", "balinese", "bamu", "bamum", "bass", "bassavah", "batak",
   "batk", "beng", "bengali", "bhaiksuki", "bhks", "bopo", "bopomofo", "brah", "brahmi", "brai",
   "braille", "bugi", "buginese", "buhd", "buhid", "cakm", "canadianaboriginal", "cans", "cari",
   "carian", "caucasianalbanian", "chakma", "cham", "cher", "cherokee", "chorasmian", "chrs",
   "common", "copt", "coptic", "cpmn", "cprt", "cuneiform", "cypriot", "cyprominoan", "cyrillic",
   "cyrl", "deseret", "deva", "devanagari", "diak", "divesakuru", "dogr", "dogra", "dsrt", "dupl",
   "duployan", "egyp", "egyptianhieroglyphs", "elba", "elbasan", "elym", "elymaic", "ethi",
   "ethiopic", "gara", "garay", "geor", "georgian", "glag", "glagolitic", "gong", "gonm", "goth",
   "gothic", "gran", "grantha", "greek", "grek", "gujarati", "gujr", "gukh", "gunjalagondi",
   "gurmukhi", "guru", "gurungkhema", "han", "hang", "hangul", "hani", "hanifirohingya", "hano",
   "hanunoo", "hatr", "hatran", "hebr", "hebrew", "hira", "hiragana", "hluw", "hmng", "hmnp",
   "hung", "imperialaramaic", "inherited", "inscriptionalpahlavi", "inscriptionalparthian",
   "ital", "java", "javanese", "kaithi", "kali", "kana", "kannada", "katakana", "kawi", "kayahli",
   "khar", "kharoshthi", "khitansmallscript", "khmer", "khmr", "khoj", "khojki", "khudawadi",
   "kiratrai", "kits", "knda", "krai", "kthi", "lana", "lao", "laoo", "latin", "latn", "lepc",
   "lepcha", "limb", "limbu", "lina", "linb", "lineara", "linearb", "lisu", "lyci", "lycian",
   "lydi", "lydian", "mahajani", "mahj", "maka", "makasar", "malayalam", "mand", "mandaic",
   "mani", "manichaean", "marc", "marchen", "masaramgondi", "medefaidrin", "medf", "meeteimayek",
   "mend", "mendekikakui", "merc", "mero", "meroiticcursive", "meroitichieroglyphs", "miao",
   "mlym", "modi", "mong", "mongolian", "mro", "mroo", "mtei", "mult", "multani", "myanmar",
   "mymr", "nabataean", "nagm", "nagmundari", "nand", "nandinagari", "narb", "nbat", "newa",
   "newtailue", "nko", "nkoo", "nshu", "nushu", "nyiakengpuachuehmong", "ogam", "ogham",
   "olchiki", "olck", "oldhungarian", "olditalic", "oldnortharabian", "oldpermic", "oldpersian",
   "oldsogdian", "oldsoutharabian", "oldturkic", "olduyghur", "olonal", "onao", "oriya", "orkh",
   "orya", "osage", "osge", "osma", "osmanya", "ougr", "pahawhhmong", "palm", "palmyrene", "pauc",
   "paucinhau", "perm", "phag", "phagspa", "phli", "phlp", "phnx", "phoenician", "plrd", "prti",
   "psalterpahlavi", "qaac", "qaai", "rejang", "rjng", "rohg", "runic", "runr", "samaritan",
   "samr", "sarb", "saur", "saurashtra", "sgnw", "sharada", "shavian", "shaw", "shrd", "sidd",
   "siddham", "signwriting", "sind", "sinh", "sinhala", "sogd", "sogdian", "sogo", "sora",
   "sorasompeng", "soyo", "soyombo", "sund", "sundanese", "sunu", "sunuwar", "sylo",
   "sylotinagri", "syrc", "syriac", "tagalog", "tagb", "tagbanwa", "taile", "taitham", "taiviet",
   "takr", "takri", "tale", "talu", "tamil", "taml", "tang", "tangsa", "tangut", "tavt", "telu",
   "telugu", "tfng", "tglg", "thaa", "thaana", "thai", "tibetan", "tibt", "tifinagh", "tirh",
   "tirhuta", "tnsa", "todhri", "todr", "toto", "tulutigalari", "tutg", "ugar", "ugaritic", "vai",
   "vaii", "vith", "vithkuqi", "wancho", "wara", "warangciti", "wcho", "xpeo", "xsux", "yezi",
   "yezidi", "yi", "yiii", "zanabazarsquare", "zanb", "zinh", "zyyy"]

/-- Versions of Unicode in which code points came to be assigned. -/
def ages : List String :=
  ["1.1", "2.0", "2.1", "3.0", "3.1", "3.2", "4.0", "4.1", "5.0", "5.1", "5.2", "6.0", "6.1",
   "6.2", "6.3", "7.0", "8.0", "9.0", "10.0", "11.0", "12.0", "12.1", "13.0", "14.0", "15.0",
   "15.1", "16.0", "v11", "v20", "v21", "v30", "v31", "v32", "v40", "v41", "v50", "v51", "v52",
   "v60", "v61", "v62", "v63", "v70", "v80", "v90", "v100", "v110", "v120", "v121", "v130",
   "v140", "v150", "v151", "v160"]

/-- Roles at the boundaries of grapheme clusters. -/
def clusterBreaks : List String :=
  ["cn", "control", "cr", "ex", "extend", "l", "lf", "lv", "lvt", "pp", "prepend", "ri",
   "regionalindicator", "sm", "spacingmark", "t", "v", "zwj"]

/-- Roles at the boundaries of sentences. -/
def sentenceBreaks : List String :=
  ["at", "aterm", "cl", "close", "cr", "ex", "extend", "fo", "format", "le", "oletter", "lf",
   "lo", "lower", "nu", "numeric", "sc", "scontinue", "se", "sep", "sp", "st", "sterm", "up",
   "upper"]

/-- Roles at the boundaries of words. -/
def wordBreaks : List String :=
  ["aletter", "le", "cr", "doublequote", "dq", "ex", "extendnumlet", "extend", "fo", "format",
   "hebrewletter", "hl", "ka", "katakana", "lf", "mb", "midnumlet", "midletter", "ml", "midnum",
   "mn", "newline", "nl", "nu", "numeric", "regionalindicator", "ri", "singlequote", "sq",
   "wsegspace", "zwj"]

/-! ## Looking a name up -/

/-- A name without what does not matter. What is left of a leading `is` and the letter `c` alone is
the name `isc`. -/
def normalize (name : Text) : Text :=
  let plain (t : Text) : Text :=
    (t.filter fun c => isAscii c && c != ' ' && c != '_' && c != '-').map Char.toLower
  match name with
  | i :: s :: t =>
    if i.toLower = 'i' && s.toLower = 's' then
      if plain t = ['c'] then ['i', 's', 'c'] else plain t
    else plain name
  | _ => plain name

/-- Whether a normalised name is one of the listed. -/
def listed (names : List String) (name : Text) : Bool := names.contains (String.ofList name)

/-- Whether a name alone stands for a set of code points. -/
def knownName (name : Text) : Bool :=
  let n := normalize name
  listed binaries n || listed categories n || listed scripts n

/-- Whether a property of the given name has the given value. -/
def knownValue (name value : Text) : Bool :=
  let n := normalize name
  let v := normalize value
  (listed ["gc", "generalcategory"] n && listed categories v)
  || (listed ["sc", "script", "scx", "scriptextensions"] n && listed scripts v)
  || (listed ["age"] n && listed ages v)
  || (listed ["gcb", "graphemeclusterbreak"] n && listed clusterBreaks v)
  || (listed ["sb", "sentencebreak"] n && listed sentenceBreaks v)
  || (listed ["wb", "wordbreak"] n && listed wordBreaks v)

/-- The texts before and after the first occurrence of `mark`. -/
def splitAt? (mark : Text) : Text → Option (Text × Text)
  | [] => none
  | c :: t =>
    if mark.isPrefixOf (c :: t) then some ([], (c :: t).drop mark.length)
    else (splitAt? mark t).map fun r => (c :: r.1, r.2)

/-- Whether what stands between braces is a known property: a name, or a name and a value. -/
def known (t : Text) : Bool :=
  match splitAt? ['!', '='] t <|> splitAt? [':'] t <|> splitAt? ['='] t with
  | some (name, value) => knownValue name value
  | none => knownName t

end ComponentPattern.Regular.Property
