import BraceParams.Yaml.Mark

namespace BraceParams.Yaml

inductive Problem where
  | forbiddenCharacter (offset : Nat)
  | missingColon
  | misplacedBlockEntry
  | misplacedKey
  | misplacedValue
  | unknownDirective
  | directiveTail
  | directiveName
  | directiveCharacter
  | longVersion
  | versionNumber
  | versionDot
  | directiveBlank
  | directiveEnd
  | tagBang
  | tagUri
  | tagUriOctet
  | tagUriLead
  | tagUriTrail
  | tagClose
  | tagEnd
  | anchorName
  | zeroIndentation
  | blockHeader
  | blockTab
  | quotedMarker
  | quotedEnd
  | escapeCharacter
  | escapeDigit
  | escapeCode
  | plainColon
  | plainTab
  | tokenStart
  | documentStart
  | duplicateVersion
  | incompatibleVersion
  | duplicateTagHandle
  | undefinedTagHandle
  | nodeContent
  | blockIndicator
  | mappingKey
  | flowSequenceEnd
  | flowMappingEnd
  deriving DecidableEq, Repr

def Problem.text : Problem → String
  | forbiddenCharacter _ => "control characters are not allowed"
  | missingColon => "could not find expected ':'"
  | misplacedBlockEntry => "block sequence entries are not allowed in this context"
  | misplacedKey => "mapping keys are not allowed in this context"
  | misplacedValue => "mapping values are not allowed in this context"
  | unknownDirective => "found unknown directive name"
  | directiveTail => "did not find expected comment or line break"
  | directiveName => "could not find expected directive name"
  | directiveCharacter => "found unexpected non-alphabetical character"
  | longVersion => "found extremely long version number"
  | versionNumber => "did not find expected version number"
  | versionDot => "did not find expected digit or '.' character"
  | directiveBlank => "did not find expected whitespace"
  | directiveEnd => "did not find expected whitespace or line break"
  | tagBang => "did not find expected '!'"
  | tagUri => "did not find expected tag URI"
  | tagUriOctet => "did not find URI escaped octet"
  | tagUriLead => "found an incorrect leading UTF-8 octet"
  | tagUriTrail => "found an incorrect trailing UTF-8 octet"
  | tagClose => "did not find the expected '>'"
  | tagEnd => "did not find expected whitespace or line break"
  | anchorName => "did not find expected alphabetic or numeric character"
  | zeroIndentation => "found an indentation indicator equal to 0"
  | blockHeader => "did not find expected comment or line break"
  | blockTab => "found a tab character where an indentation space is expected"
  | quotedMarker => "found unexpected document indicator"
  | quotedEnd => "found unexpected end of stream"
  | escapeCharacter => "found unknown escape character"
  | escapeDigit => "did not find expected hexadecimal number"
  | escapeCode => "found invalid Unicode character escape code"
  | plainColon => "found unexpected ':'"
  | plainTab => "found a tab character that violates indentation"
  | tokenStart => "found character that cannot start any token"
  | documentStart => "did not find expected <document start>"
  | duplicateVersion => "found duplicate %YAML directive"
  | incompatibleVersion => "found incompatible YAML document"
  | duplicateTagHandle => "found duplicate %TAG directive"
  | undefinedTagHandle => "found undefined tag handle"
  | nodeContent => "did not find expected node content"
  | blockIndicator => "did not find expected '-' indicator"
  | mappingKey => "did not find expected key"
  | flowSequenceEnd => "did not find expected ',' or ']'"
  | flowMappingEnd => "did not find expected ',' or '\x7d'"

inductive Activity where
  | simpleKey
  | directive
  | versionDirective
  | tagDirectiveScan
  | tagDirective
  | tagHandleScan
  | tagHandle
  | tagScan
  | tag
  | anchor
  | alias
  | blockScalar
  | quotedScalar
  | quotedEscape
  | plainScalar
  | nextToken
  | node
  | blockNode
  | flowNode
  | blockCollection
  | blockMapping
  | flowSequence
  | flowMapping
  deriving DecidableEq, Repr

def Activity.text : Activity → String
  | simpleKey => "while scanning a simple key"
  | directive => "while scanning a directive"
  | versionDirective => "while scanning a %YAML directive"
  | tagDirectiveScan => "while scanning a %TAG directive"
  | tagDirective => "while parsing a %TAG directive"
  | tagHandleScan => "while scanning a tag directive"
  | tagHandle => "while parsing a tag directive"
  | tagScan => "while scanning a tag"
  | tag => "while parsing a tag"
  | anchor => "while scanning an anchor"
  | .alias => "while scanning an alias"
  | blockScalar => "while scanning a block scalar"
  | quotedScalar => "while scanning a quoted scalar"
  | quotedEscape => "while parsing a quoted scalar"
  | plainScalar => "while scanning a plain scalar"
  | nextToken => "while scanning for the next token"
  | node => "while parsing a node"
  | blockNode => "while parsing a block node"
  | flowNode => "while parsing a flow node"
  | blockCollection => "while parsing a block collection"
  | blockMapping => "while parsing a block mapping"
  | flowSequence => "while parsing a flow sequence"
  | flowMapping => "while parsing a flow mapping"

structure SyntaxError where
  problem : Problem
  mark : Mark
  context : Option (Activity × Mark) := none
  deriving DecidableEq, Repr

end BraceParams.Yaml
